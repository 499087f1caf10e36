import CacheClient.Text.Utf8
import Mathlib.Tactic.IntervalCases

/-!
# Text is read from its bytes, and from no others

`Utf8.front` reads exactly the character that `String.utf8EncodeChar` wrote, whatever bytes
follow it (`front_utf8EncodeChar`). The proof goes by the number of bytes: the first one carries
the top bits and bounds the second, every further one carries six bits.

In the other direction, bytes at whose front a character is read begin with what is written for
it (`eq_of_front`): the ranges of the second byte leave no other form.

Main result: `decode?_eq_some_iff`. A byte of ASCII is then a character of the text, wherever it
stands (`mem_of_decode?`).
-/

namespace CacheClient.Utf8

/-! ## The bytes of a character -/

theorem Lead.of?_two {n : Nat} (h : 2 ≤ n) (h' : n < 32) :
    Lead.of? (UInt8.ofNat (n + 0xC0)) = some ⟨n, 1, 0x80, 0xBF⟩ := by
  interval_cases n <;> rfl

theorem Lead.of?_three {n : Nat} (h : n < 16) :
    Lead.of? (UInt8.ofNat (n + 0xE0)) =
      some ⟨n, 2, if n = 0 then 0xA0 else 0x80, if n = 13 then 0x9F else 0xBF⟩ := by
  interval_cases n <;> rfl

theorem Lead.of?_four {n : Nat} (h : n < 5) :
    Lead.of? (UInt8.ofNat (n + 0xF0)) =
      some ⟨n, 3, if n = 0 then 0x90 else 0x80, if n = 4 then 0x8F else 0xBF⟩ := by
  interval_cases n <;> rfl

theorem front_lead {n : Nat} {rest : Bytes} {lead : Lead} (hn : 0x80 ≤ n) (hn' : n < 0x100)
    (h : Lead.of? (UInt8.ofNat n) = some lead) :
    front (UInt8.ofNat n :: rest) = continued 1 lead.bits lead.low lead.high lead.more rest := by
  have hb : ¬UInt8.ofNat n < 0x80 := by
    rw [UInt8.lt_iff_toNat_lt, UInt8.toNat_ofNat', Nat.mod_eq_of_lt hn']
    exact Nat.not_lt.2 hn
  rw [front, if_neg hb, h]

/-- A byte in range is read as the next six bits. -/
theorem continued_cons {seen bits more n : Nat} {low high : UInt8} {rest : Bytes} (h : n < 64)
    (hlow : low.toNat ≤ n + 0x80) (hhigh : n + 0x80 ≤ high.toNat) :
    continued seen bits low high (more + 1) (UInt8.ofNat (n + 0x80) :: rest) =
      continued (seen + 1) (bits * 64 + n) 0x80 0xBF more rest := by
  have hn : (UInt8.ofNat (n + 0x80)).toNat = n + 0x80 := by
    rw [UInt8.toNat_ofNat', Nat.mod_eq_of_lt (by omega)]
  have hin : low ≤ UInt8.ofNat (n + 0x80) ∧ UInt8.ofNat (n + 0x80) ≤ high := by
    simp only [UInt8.le_iff_toNat_le, hn]
    exact ⟨hlow, hhigh⟩
  rw [continued, if_pos hin, hn, Nat.add_sub_cancel]

/-! ## Code points by their length -/

theorem front_one {v : Nat} (h : v ≤ 0x7F) (rest : Bytes) :
    front (UInt8.ofNat v :: rest) = .char (Char.ofNat v) rest := by
  have hn : (UInt8.ofNat v).toNat = v := by
    rw [UInt8.toNat_ofNat', Nat.mod_eq_of_lt (by omega)]
  have hb : UInt8.ofNat v < 0x80 := by
    rw [UInt8.lt_iff_toNat_lt, hn]
    exact Nat.lt_succ_of_le h
  rw [front, if_pos hb, hn]

theorem front_two {v : Nat} (h : 0x7F < v) (h' : v ≤ 0x7FF) (rest : Bytes) :
    front (UInt8.ofNat (v / 64 % 0x20 + 0xC0) :: UInt8.ofNat (v % 0x40 + 0x80) :: rest) =
      .char (Char.ofNat v) rest := by
  rw [front_lead (by omega) (by omega) (Lead.of?_two (by omega) (by omega)),
    continued_cons (by omega) (by simp) (by simp; omega), continued]
  congr 2
  dsimp only
  omega

theorem front_three {v : Nat} (h : 0x7FF < v) (h' : v ≤ 0xFFFF)
    (hvalid : v < 0xD800 ∨ 0xDFFF < v) (rest : Bytes) :
    front (UInt8.ofNat (v / 4096 % 0x10 + 0xE0) :: UInt8.ofNat (v / 64 % 0x40 + 0x80) ::
      UInt8.ofNat (v % 0x40 + 0x80) :: rest) = .char (Char.ofNat v) rest := by
  -- The second byte is bounded further after E0 (no overlong form) and ED (no surrogate).
  have hlow : (if v / 4096 % 0x10 = 0 then 0xA0 else 0x80 : UInt8).toNat ≤
      v / 64 % 0x40 + 0x80 := by
    split
    · simp; omega
    · simp
  have hhigh : v / 64 % 0x40 + 0x80 ≤
      (if v / 4096 % 0x10 = 13 then 0x9F else 0xBF : UInt8).toNat := by
    split <;> simp <;> omega
  rw [front_lead (by omega) (by omega) (Lead.of?_three (by omega)),
    continued_cons (by omega) hlow hhigh, continued_cons (by omega) (by simp) (by simp; omega),
    continued]
  congr 2
  dsimp only
  omega

theorem front_four {v : Nat} (h : 0xFFFF < v) (h' : v < 0x110000) (rest : Bytes) :
    front (UInt8.ofNat (v / 262144 % 0x08 + 0xF0) :: UInt8.ofNat (v / 4096 % 0x40 + 0x80) ::
      UInt8.ofNat (v / 64 % 0x40 + 0x80) :: UInt8.ofNat (v % 0x40 + 0x80) :: rest) =
        .char (Char.ofNat v) rest := by
  -- The second byte is bounded further after F0 (no overlong form) and F4 (the last code point).
  have hlow : (if v / 262144 % 0x08 = 0 then 0x90 else 0x80 : UInt8).toNat ≤
      v / 4096 % 0x40 + 0x80 := by
    split
    · simp; omega
    · simp
  have hhigh : v / 4096 % 0x40 + 0x80 ≤
      (if v / 262144 % 0x08 = 4 then 0x8F else 0xBF : UInt8).toNat := by
    split <;> simp <;> omega
  rw [front_lead (by omega) (by omega) (Lead.of?_four (by omega)),
    continued_cons (by omega) hlow hhigh, continued_cons (by omega) (by simp) (by simp; omega),
    continued_cons (by omega) (by simp) (by simp; omega), continued]
  congr 2
  dsimp only
  omega

/-! ## Characters and texts -/

/-- **A written character is read back.** -/
theorem front_utf8EncodeChar (c : Char) (rest : Bytes) :
    front (String.utf8EncodeChar c ++ rest) = .char c rest := by
  have hvalid : c.toNat < 0xD800 ∨ 0xDFFF < c.toNat ∧ c.toNat < 0x110000 := c.valid
  suffices h : front (String.utf8EncodeChar c ++ rest) = .char (Char.ofNat c.toNat) rest by
    rwa [Char.ofNat_toNat] at h
  rw [String.utf8EncodeChar, show c.val.toNat = c.toNat from rfl]
  split
  · next h => exact front_one h rest
  · split
    · next h => exact front_two (by omega) h rest
    · split
      · next h => exact front_three (by omega) h (by omega) rest
      · exact front_four (by omega) (by omega) rest

/-- The pieces of a written text are its characters. -/
theorem pieces_encode (text : List Char) : pieces (encode text) = text.map .char := by
  induction text with
  | nil =>
    rw [encode_nil, pieces_eq]
    rfl
  | cons c text ih =>
    rw [encode_cons, pieces_eq, front_utf8EncodeChar, List.map_cons, ← ih]

/-- **A written text is read back.** -/
theorem decode?_encode (text : List Char) : decode? (encode text) = some text := by
  rw [decode?, pieces_encode, List.mapM_map]
  simpa [Function.comp_def, Piece.char?] using List.mapM_pure (m := Option) (l := text) (f := id)

theorem encode_inj {text more : List Char} (h : encode text = encode more) : text = more := by
  rw [← Option.some_inj, ← decode?_encode text, h, decode?_encode]

theorem length_ofString (s : String) : (ofString s).length = s.utf8ByteSize := by
  conv => rhs; rw [← String.ofList_toList (s := s)]
  exact List.size_toByteArray.symm

theorem fault?_ofString (s : String) : fault? (ofString s) = none := by
  have hfirst (n : Nat) (text : List Char) : Fault.first? n (text.map .char) = none := by
    induction text generalizing n with
    | nil => rfl
    | cons c text ih => exact ih _
  rw [fault?, ofString, pieces_encode, hfirst]

/-- A written text is readable as it is. -/
theorem lossy_ofString (s : String) : lossy (ofString s) = s := by
  rw [lossy, ofString, pieces_encode, List.map_map]
  simp [Function.comp_def, Piece.shown]

/-! ## Nothing else is read -/

/-- The first bytes that promise something are those of characters with two, three or four
bytes. -/
theorem Lead.of?_cases {b : UInt8} {lead : Lead} (h : Lead.of? b = some lead) :
    ∃ n,
      2 ≤ n ∧ n < 32 ∧ b = UInt8.ofNat (n + 0xC0) ∧ lead = ⟨n, 1, 0x80, 0xBF⟩ ∨
      n < 16 ∧ b = UInt8.ofNat (n + 0xE0) ∧
        lead = ⟨n, 2, if n = 0 then 0xA0 else 0x80, if n = 13 then 0x9F else 0xBF⟩ ∨
      n < 5 ∧ b = UInt8.ofNat (n + 0xF0) ∧
        lead = ⟨n, 3, if n = 0 then 0x90 else 0x80, if n = 4 then 0x8F else 0xBF⟩ := by
  have hlt : b.toNat < 256 := b.toNat_lt
  rw [← UInt8.ofNat_toNat (x := b)] at h ⊢
  generalize b.toNat = v at h hlt ⊢
  by_cases hone : v < 0xC2
  · rw [Lead.of?, if_pos] at h
    · cases h
    · rwa [UInt8.lt_iff_toNat_lt, UInt8.toNat_ofNat', Nat.mod_eq_of_lt hlt]
  by_cases htwo : v < 0xE0
  · obtain ⟨n, rfl⟩ := Nat.exists_eq_add_of_le' (show 0xC0 ≤ v by omega)
    rw [Lead.of?_two (by omega) (by omega)] at h
    exact ⟨n, .inl ⟨by omega, by omega, rfl, (Option.some.inj h).symm⟩⟩
  by_cases hthree : v < 0xF0
  · obtain ⟨n, rfl⟩ := Nat.exists_eq_add_of_le' (show 0xE0 ≤ v by omega)
    rw [Lead.of?_three (by omega)] at h
    exact ⟨n, .inr (.inl ⟨by omega, rfl, (Option.some.inj h).symm⟩)⟩
  by_cases hfour : v < 0xF5
  · obtain ⟨n, rfl⟩ := Nat.exists_eq_add_of_le' (show 0xF0 ≤ v by omega)
    rw [Lead.of?_four (by omega)] at h
    exact ⟨n, .inr (.inr ⟨by omega, rfl, (Option.some.inj h).symm⟩)⟩
  · have hlow : 0xF5 ≤ v := by omega
    interval_cases v <;> cases h

/-- A byte that is owed to a character is there, and carries six bits. -/
theorem exists_of_continued {seen bits more : Nat} {low high : UInt8} {bytes rest : Bytes}
    {c : Char} (hlow : 0x80 ≤ low.toNat) (hhigh : high.toNat ≤ 0xBF)
    (h : continued seen bits low high (more + 1) bytes = .char c rest) :
    ∃ n tail, bytes = UInt8.ofNat (n + 0x80) :: tail ∧
      (n < 64 ∧ low.toNat ≤ n + 0x80 ∧ n + 0x80 ≤ high.toNat) ∧
      continued (seen + 1) (bits * 64 + n) 0x80 0xBF more tail = .char c rest := by
  cases bytes with
  | nil => cases h
  | cons b tail =>
    rw [continued] at h
    split at h
    · next hin =>
      have hge : low.toNat ≤ b.toNat := UInt8.le_iff_toNat_le.1 hin.1
      have hle : b.toNat ≤ high.toNat := UInt8.le_iff_toNat_le.1 hin.2
      have hb : b.toNat - 0x80 + 0x80 = b.toNat := by omega
      refine ⟨b.toNat - 0x80, tail, ?_, ?_, h⟩
      · rw [hb, UInt8.ofNat_toNat]
      · omega
    · cases h

theorem toNat_val_ofNat {v : Nat} (h : v.isValidChar) : (Char.ofNat v).val.toNat = v := by
  rw [Char.ofNat, dif_pos h]
  rfl

section

variable {seen n : Nat} {bytes rest : Bytes} {c : Char}

theorem eq_of_continued_two (hn : 2 ≤ n) (hn' : n < 32)
    (h : continued seen n 0x80 0xBF 1 bytes = .char c rest) :
    UInt8.ofNat (n + 0xC0) :: bytes = String.utf8EncodeChar c ++ rest := by
  obtain ⟨n₁, bytes, rfl, ⟨h₁, -, -⟩, h⟩ := exists_of_continued (by simp) (by simp) h
  rw [continued, Front.char.injEq] at h
  obtain ⟨rfl, rfl⟩ := h
  have hvalid : (n * 64 + n₁).isValidChar := .inl (by omega)
  have hmin : ¬n * 64 + n₁ ≤ 0x7F := by omega
  have hmax : n * 64 + n₁ ≤ 0x7FF := by omega
  have hfirst : (n * 64 + n₁) / 64 % 32 = n := by omega
  have hlast : (n * 64 + n₁) % 64 = n₁ := by omega
  simp only [String.utf8EncodeChar, toNat_val_ofNat hvalid, if_neg hmin, if_pos hmax, hfirst,
    hlast]
  rfl

theorem eq_of_continued_three (hn : n < 16)
    (h : continued seen n (if n = 0 then 0xA0 else 0x80) (if n = 13 then 0x9F else 0xBF) 2 bytes =
      .char c rest) :
    UInt8.ofNat (n + 0xE0) :: bytes = String.utf8EncodeChar c ++ rest := by
  obtain ⟨n₁, bytes, rfl, ⟨h₁, hlow, hhigh⟩, h⟩ :=
    exists_of_continued (by split <;> simp) (by split <;> simp) h
  obtain ⟨n₂, bytes, rfl, ⟨h₂, -, -⟩, h⟩ := exists_of_continued (by simp) (by simp) h
  rw [continued, Front.char.injEq] at h
  obtain ⟨rfl, rfl⟩ := h
  -- The bounds of the second byte leave out overlong forms and surrogates.
  have hzero : n = 0 → 0xA0 ≤ n₁ + 0x80 := by
    rintro rfl
    exact hlow
  have hthirteen : n = 13 → n₁ + 0x80 ≤ 0x9F := by
    rintro rfl
    exact hhigh
  obtain ⟨v, hv⟩ : ∃ v, v = (n * 64 + n₁) * 64 + n₂ := ⟨_, rfl⟩
  have hvalid : v.isValidChar := by
    rw [Nat.isValidChar]
    omega
  have hmin : ¬v ≤ 0x7F := by omega
  have hmin' : ¬v ≤ 0x7FF := by omega
  have hmax : v ≤ 0xFFFF := by omega
  have hfirst : v / 4096 % 16 = n := by omega
  have hsecond : v / 64 % 64 = n₁ := by omega
  have hlast : v % 64 = n₂ := by omega
  rw [← hv]
  simp only [String.utf8EncodeChar, toNat_val_ofNat hvalid, if_neg hmin, if_neg hmin', if_pos hmax,
    hfirst, hsecond, hlast]
  rfl

theorem eq_of_continued_four (hn : n < 5)
    (h : continued seen n (if n = 0 then 0x90 else 0x80) (if n = 4 then 0x8F else 0xBF) 3 bytes =
      .char c rest) :
    UInt8.ofNat (n + 0xF0) :: bytes = String.utf8EncodeChar c ++ rest := by
  obtain ⟨n₁, bytes, rfl, ⟨h₁, hlow, hhigh⟩, h⟩ :=
    exists_of_continued (by split <;> simp) (by split <;> simp) h
  obtain ⟨n₂, bytes, rfl, ⟨h₂, -, -⟩, h⟩ := exists_of_continued (by simp) (by simp) h
  obtain ⟨n₃, bytes, rfl, ⟨h₃, -, -⟩, h⟩ := exists_of_continued (by simp) (by simp) h
  rw [continued, Front.char.injEq] at h
  obtain ⟨rfl, rfl⟩ := h
  -- The bounds of the second byte leave out overlong forms and what is past the last code point.
  have hzero : n = 0 → 0x90 ≤ n₁ + 0x80 := by
    rintro rfl
    exact hlow
  have hfour : n = 4 → n₁ + 0x80 ≤ 0x8F := by
    rintro rfl
    exact hhigh
  obtain ⟨v, hv⟩ : ∃ v, v = ((n * 64 + n₁) * 64 + n₂) * 64 + n₃ := ⟨_, rfl⟩
  have hvalid : v.isValidChar := by
    rw [Nat.isValidChar]
    omega
  have hmin : ¬v ≤ 0x7F := by omega
  have hmin' : ¬v ≤ 0x7FF := by omega
  have hmin'' : ¬v ≤ 0xFFFF := by omega
  have hfirst : v / 262144 % 8 = n := by omega
  have hsecond : v / 4096 % 64 = n₁ := by omega
  have hthird : v / 64 % 64 = n₂ := by omega
  have hlast : v % 64 = n₃ := by omega
  rw [← hv]
  simp only [String.utf8EncodeChar, toNat_val_ofNat hvalid, if_neg hmin, if_neg hmin',
    if_neg hmin'', hfirst, hsecond, hthird, hlast]
  rfl

/-- **A character that is read was written so.** -/
theorem eq_of_front (h : front bytes = .char c rest) :
    bytes = String.utf8EncodeChar c ++ rest := by
  cases bytes with
  | nil => cases h
  | cons b bytes =>
    rw [front] at h
    split at h
    · next hb =>
      cases h
      have hb : b.toNat ≤ 0x7F := Nat.le_of_lt_succ (UInt8.lt_iff_toNat_lt.1 hb)
      have hvalid : b.toNat.isValidChar := .inl (by omega)
      simp only [String.utf8EncodeChar, toNat_val_ofNat hvalid, if_pos hb, UInt8.ofNat_toNat]
      rfl
    · split at h
      · cases h
      · next lead hlead =>
        obtain ⟨n, ⟨hn, hn', rfl, rfl⟩ | ⟨hn, rfl, rfl⟩ | ⟨hn, rfl, rfl⟩⟩ :=
          Lead.of?_cases hlead
        · exact eq_of_continued_two hn hn' h
        · exact eq_of_continued_three hn h
        · exact eq_of_continued_four hn h

end

theorem continued_ne_nothing (seen bits : Nat) (low high : UInt8) (more : Nat) (bytes : Bytes) :
    continued seen bits low high more bytes ≠ .nothing := by
  induction more generalizing seen bits low high bytes with
  | zero => simp [continued]
  | succ more ih =>
    cases bytes with
    | nil => simp [continued]
    | cons b rest =>
      rw [continued]
      split
      · exact ih _ _ _ _ rest
      · simp

theorem front_ne_nothing (b : UInt8) (rest : Bytes) : front (b :: rest) ≠ .nothing := by
  rw [front]
  split
  · simp
  · split
    · simp
    · exact continued_ne_nothing _ _ _ _ _ rest

/-- **The text of bytes is the one that is written as these bytes.** -/
theorem decode?_eq_some_iff {bytes : Bytes} {text : List Char} :
    decode? bytes = some text ↔ bytes = encode text := by
  constructor
  · intro h
    induction hn : bytes.length using Nat.strongRecOn generalizing bytes text with
    | ind n ih =>
      subst hn
      rw [decode?, pieces_eq] at h
      cases hfront : front bytes with
      | nothing =>
        cases bytes with
        | nil =>
          rw [hfront] at h
          cases h
          rfl
        | cons b bytes => exact absurd hfront (front_ne_nothing b bytes)
      | unfinished => simp [hfront, Piece.char?] at h
      | illFormed length rest => simp [hfront, Piece.char?] at h
      | char c rest =>
        simp only [hfront, List.mapM_cons, Piece.char?, Option.pure_def, Option.bind_eq_bind,
          Option.bind_some, Option.bind_eq_some_iff, Option.some.injEq] at h
        obtain ⟨tail, htail, rfl⟩ := h
        have hrest : rest = encode tail := ih _ (length_rest_lt hfront (by simp)) htail rfl
        rw [encode_cons, ← hrest]
        exact eq_of_front hfront
  · rintro rfl
    exact decode?_encode text

/-! ## Bytes of ASCII -/

theorem eq_of_mem_utf8EncodeChar {b : UInt8} (hb : b < 0x80) {c : Char}
    (hmem : b ∈ String.utf8EncodeChar c) : c = Char.ofNat b.toNat := by
  have hlt : b.toNat < 0x80 := UInt8.lt_iff_toNat_lt.1 hb
  have hlater {n : Nat} (hn : 0x80 ≤ n % 256) : b ≠ UInt8.ofNat n := by
    rintro rfl
    rw [UInt8.toNat_ofNat'] at hlt
    omega
  rw [String.utf8EncodeChar, show c.val.toNat = c.toNat from rfl] at hmem
  split at hmem
  · next hone =>
    rw [List.mem_singleton.1 hmem, UInt8.toNat_ofNat', Nat.mod_eq_of_lt (by omega),
      Char.ofNat_toNat]
  · split at hmem
    · simp only [List.mem_cons, List.not_mem_nil, or_false] at hmem
      rcases hmem with h | h <;> exact absurd h (hlater (by omega))
    · split at hmem
      · simp only [List.mem_cons, List.not_mem_nil, or_false] at hmem
        rcases hmem with h | h | h <;> exact absurd h (hlater (by omega))
      · simp only [List.mem_cons, List.not_mem_nil, or_false] at hmem
        rcases hmem with h | h | h | h <;> exact absurd h (hlater (by omega))

theorem mem_of_decode? {bytes : Bytes} {text : List Char} {b : UInt8} (hb : b < 0x80)
    (hmem : b ∈ bytes) (h : decode? bytes = some text) : Char.ofNat b.toNat ∈ text := by
  rw [decode?_eq_some_iff.1 h] at hmem
  obtain ⟨c, hc, hmem⟩ := List.mem_flatMap.1 hmem
  rwa [← eq_of_mem_utf8EncodeChar hb hmem]

end CacheClient.Utf8
