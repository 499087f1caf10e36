import CacheClient.Proofs.Decimal

/-!
# Blanks around numbers

Text has a form between blanks if it is blanks, something of that form, and blanks (`Padded`).
A form that holds no blank is found by trimming, and nothing else is left that has it
(`trim_iff_padded`). No blank is part of a numeral, so this is so for `Numeral.trim_iff` and
`Natural.trim_iff`, each with the blanks that are trimmed where its numerals are read.
-/

namespace CacheClient.Decimal

variable {grouped : Bool} {text : List Char}

/-! ## Trimming -/

/-- Text with a part for which `P` holds, and blanks before and behind it. -/
def Padded (blank : Char → Bool) (P : List Char → Prop) (text : List Char) : Prop :=
  ∃ front core back, text = front ++ core ++ back ∧ (∀ c ∈ front, blank c) ∧
    (∀ c ∈ back, blank c) ∧ P core

theorem Padded.of_core {blank : Char → Bool} {P : List Char → Prop} (h : P text) :
    Padded blank P text := ⟨[], text, [], by simp, by simp, by simp, h⟩

theorem dropWhile_append {blank : Char → Bool} {front core : List Char}
    (hfront : ∀ c ∈ front, blank c) (hcore : ∀ c ∈ core, blank c = false) :
    (front ++ core).dropWhile blank = core := by
  rw [List.dropWhile_append_of_pos hfront]
  cases core with
  | nil => rfl
  | cons c core => exact List.dropWhile_cons_of_neg (by simp [hcore c])

theorem trim_append_append {blank : Char → Bool} {front core back : List Char}
    (hfront : ∀ c ∈ front, blank c) (hback : ∀ c ∈ back, blank c)
    (hcore : ∀ c ∈ core, blank c = false) : Text.trim blank (front ++ core ++ back) = core := by
  rw [Text.trim]
  cases core with
  | nil =>
    have hblank : ∀ c ∈ front ++ [] ++ back, blank c := by
      simpa [or_imp, forall_and] using ⟨hfront, hback⟩
    have hdrop : (front ++ [] ++ back ++ []).dropWhile blank = [] :=
      dropWhile_append hblank (by simp)
    rw [List.append_nil] at hdrop
    rw [hdrop]
    rfl
  | cons c core =>
    have hkept : (c :: core ++ back).dropWhile blank = c :: core ++ back :=
      List.dropWhile_cons_of_neg (by simp [hcore c])
    rw [List.append_assoc, List.dropWhile_append_of_pos hfront, hkept, List.reverse_append,
      dropWhile_append (fun a ha => hback a (List.mem_reverse.1 ha))
        (fun a ha => hcore a (List.mem_reverse.1 ha)), List.reverse_reverse]

theorem exists_eq_append_trim (blank : Char → Bool) (text : List Char) :
    ∃ front back, text = front ++ Text.trim blank text ++ back ∧ (∀ c ∈ front, blank c) ∧
      ∀ c ∈ back, blank c := by
  have hsplit (text : List Char) : ∃ front, text = front ++ text.dropWhile blank ∧
      ∀ c ∈ front, blank c :=
    ⟨text.takeWhile blank, List.takeWhile_append_dropWhile.symm,
      List.all_eq_true.1 List.all_takeWhile⟩
  obtain ⟨front, hfront, hblank⟩ := hsplit text
  obtain ⟨back, hback, hblank'⟩ := hsplit (text.dropWhile blank).reverse
  refine ⟨front, back.reverse, ?_, hblank, fun c hc => hblank' c (List.mem_reverse.1 hc)⟩
  rw [Text.trim, List.append_assoc, ← List.reverse_append, ← hback, List.reverse_reverse]
  exact hfront

/-- Trimming finds what holds no blank, and nothing else that has the same form. -/
theorem trim_iff_padded {blank : Char → Bool} {P : List Char → Prop}
    (hP : ∀ core, P core → ∀ c ∈ core, blank c = false) :
    P (Text.trim blank text) ↔ Padded blank P text := by
  constructor
  · intro h
    obtain ⟨front, back, htext, hfront, hback⟩ := exists_eq_append_trim blank text
    exact ⟨front, _, back, htext, hfront, hback, h⟩
  · rintro ⟨front, core, back, rfl, hfront, hback, hcore⟩
    rwa [trim_append_append hfront hback (hP core hcore)]

/-! ## Numerals hold no blank

Their characters are printed ones of ASCII, which are no blanks of either kind. -/

theorem isBlank_of_printable {c : Char} (h : 0x20 < c.toNat ∧ c.toNat < 0x7F) :
    Text.isBlank c = false := by
  simp [Text.isBlank, Text.blankRanges]
  omega

theorem isAsciiBlank_of_printable {c : Char} (h : 0x20 < c.toNat ∧ c.toNat < 0x7F) :
    Text.isAsciiBlank c = false := by
  by_contra hblank
  simp only [Text.isAsciiBlank, Bool.not_eq_false, Bool.or_eq_true, decide_eq_true_eq] at hblank
  obtain (((rfl | rfl) | rfl) | rfl) | rfl := hblank <;> exact absurd h (by decide)

theorem IsMagnitude.printable (h : IsMagnitude grouped text) {c : Char} (hc : c ∈ text) :
    0x20 < c.toNat ∧ c.toNat < 0x7F := by
  have hchar : c.isDigit ∨ c = '_' := by
    cases text with
    | nil => exact h.elim
    | cons first rest =>
      rcases List.mem_cons.1 hc with rfl | hc
      · exact .inl h.1
      · exact (h.2 c hc).imp_right And.right
  rcases hchar with hdigit | rfl
  · have hrange : 0x30 ≤ c.toNat ∧ c.toNat ≤ 0x39 := by
      simpa [Char.isDigit, UInt32.le_iff_toNat_le] using hdigit
    omega
  · decide

theorem Natural.printable {n : Nat} (h : Natural grouped text n) {c : Char} (hc : c ∈ text) :
    0x20 < c.toNat ∧ c.toNat < 0x7F := by
  cases h with
  | bare hm => exact hm.printable hc
  | plus hm =>
    rcases List.mem_cons.1 hc with rfl | hc
    · decide
    · exact hm.printable hc

theorem Numeral.printable {n : Int} (h : Numeral grouped text n) {c : Char} (hc : c ∈ text) :
    0x20 < c.toNat ∧ c.toNat < 0x7F := by
  cases h with
  | natural h => exact h.printable hc
  | minus hm =>
    rcases List.mem_cons.1 hc with rfl | hc
    · decide
    · exact hm.printable hc

/-- Blanks of Unicode are trimmed from a numeral for a natural number. -/
theorem Natural.trim_iff {n : Nat} :
    Natural grouped (Text.trim Text.isBlank text) n ↔
      Padded Text.isBlank (Natural grouped · n) text :=
  trim_iff_padded (P := (Natural grouped · n)) fun _ h _ hc =>
    isBlank_of_printable (h.printable hc)

/-- Blanks of ASCII are trimmed from a numeral. -/
theorem Numeral.trim_iff {n : Int} :
    Numeral grouped (Text.trim Text.isAsciiBlank text) n ↔
      Padded Text.isAsciiBlank (Numeral grouped · n) text :=
  trim_iff_padded (P := (Numeral grouped · n)) fun _ h _ hc =>
    isAsciiBlank_of_printable (h.printable hc)

/-- A written number is its numeral, so nothing is trimmed. -/
theorem trim_integer (n : Int) : Text.trim Text.isAsciiBlank (integer n) = integer n := by
  have hnumeral : Numeral false (integer n) n := numeral_integer n
  have hcore : ∀ text, text = integer n → ∀ c ∈ text, Text.isAsciiBlank c = false := by
    rintro _ rfl c hc
    exact isAsciiBlank_of_printable (hnumeral.printable hc)
  exact (trim_iff_padded hcore).2 (.of_core rfl)

end CacheClient.Decimal
