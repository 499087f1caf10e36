import CacheClient.Decimal
import Mathlib.Tactic.ByContra

/-!
# What is read as a number

The readers of numbers accept two grammars. A magnitude is a digit and then more of them, with
underscores among these if the numeral is a grouped one; `Natural` allows a plus sign in front of
it, and `Numeral` a minus sign as well. Digits denote a number whatever the zeros in front of
them.

Each reader is compared with its grammar in both directions. The bounded reader stops at the
first digit that takes it past its bound; since reading on never makes a number smaller, that is
no different from reading to the end and looking then (`readUpTo_eq_ok_iff`).

Main results: `readInteger_eq_ok_iff`, `readInt64_eq_ok_iff` and `readUInt64_eq_ok_iff`. A number
is written as one of its numerals, so it is read back (`readInteger_integer`,
`readInt64_integer`).
-/

namespace CacheClient.Decimal

/-! ## The grammars -/

/-- The number that digits denote; underscores among them stand for nothing. -/
def denoted (digits : List Char) : Nat :=
  Nat.ofDigitChars 10 (digits.filter Char.isDigit) 0

/-- A digit, then digits and, in a grouped numeral, underscores. -/
def IsMagnitude (grouped : Bool) : List Char → Prop
  | [] => False
  | first :: rest => first.isDigit ∧ ∀ c ∈ rest, c.isDigit ∨ grouped ∧ c = '_'

/-- A numeral for a natural number: a magnitude, behind a plus sign at most. -/
inductive Natural (grouped : Bool) : List Char → Nat → Prop where
  | bare {digits : List Char} (h : IsMagnitude grouped digits) :
    Natural grouped digits (denoted digits)
  | plus {digits : List Char} (h : IsMagnitude grouped digits) :
    Natural grouped ('+' :: digits) (denoted digits)

/-- A numeral: a magnitude, with or without a sign. -/
inductive Numeral (grouped : Bool) : List Char → Int → Prop where
  | natural {text : List Char} {n : Nat} (h : Natural grouped text n) : Numeral grouped text n
  | minus {digits : List Char} (h : IsMagnitude grouped digits) :
    Numeral grouped ('-' :: digits) (-(denoted digits : Int))

variable {grouped : Bool} {text : List Char}

/-- What does without underscores may have them. -/
theorem IsMagnitude.of_ungrouped (h : IsMagnitude false text) : IsMagnitude true text := by
  cases text with
  | nil => exact h
  | cons first rest => exact ⟨h.1, fun c hc => (h.2 c hc).elim .inl fun h => absurd h.1 (by simp)⟩

theorem Numeral.of_ungrouped {n : Int} (h : Numeral false text n) : Numeral true text n := by
  cases h with
  | natural h =>
    cases h with
    | bare h => exact .natural (.bare (IsMagnitude.of_ungrouped h))
    | plus h => exact .natural (.plus (IsMagnitude.of_ungrouped h))
  | minus h => exact .minus (IsMagnitude.of_ungrouped h)

/-! ## Digits -/

theorem digit?_eq_some_iff {c : Char} {d : Nat} :
    digit? c = some d ↔ c.isDigit ∧ d = c.toNat - '0'.toNat := by
  have hdigit : c.isDigit = true ↔ '0' ≤ c ∧ c ≤ '9' := by
    simp only [Char.isDigit, Bool.and_eq_true, decide_eq_true_eq]
    rfl
  rw [digit?, hdigit]
  split
  · next h =>
    rw [Option.some.injEq, and_iff_right h]
    exact eq_comm
  · next h => simp [h]

theorem digit?_eq_none_iff {c : Char} : digit? c = none ↔ ¬c.isDigit := by
  rw [Option.eq_none_iff_forall_ne_some]
  simp [digit?_eq_some_iff]

theorem not_isDigit_underscore : ¬Char.isDigit '_' := by decide

/-! ## Magnitudes -/

theorem map_eq_ok_iff {α β : Type} {f : α → β} {e : Except NumeralError α} {b : β} :
    e.map f = .ok b ↔ ∃ a, e = .ok a ∧ f a = b := by
  cases e <;> simp [Except.map]

/-- Digits and underscores are read, and nothing else is. -/
theorem readGrouped_eq_ok_iff {value n : Nat} :
    readGrouped value text = .ok n ↔ (∀ c ∈ text, c.isDigit ∨ c = '_') ∧
      n = Nat.ofDigitChars 10 (text.filter Char.isDigit) value := by
  induction text generalizing value with
  | nil =>
    have hnil : (∀ c ∈ ([] : List Char), c.isDigit ∨ c = '_') := by simp
    rw [readGrouped, Except.ok.injEq, and_iff_right hnil]
    exact eq_comm
  | cons c text ih =>
    rw [readGrouped]
    split
    · next hc =>
      subst hc
      rw [ih, List.filter_cons_of_neg not_isDigit_underscore]
      simp
    · next hc =>
      cases hd : digit? c with
      | none => simp [digit?_eq_none_iff.1 hd, hc]
      | some d =>
        obtain ⟨hdigit, rfl⟩ := digit?_eq_some_iff.1 hd
        simp only [ih, List.filter_cons_of_pos hdigit, Nat.ofDigitChars_cons, List.forall_mem_cons,
          hdigit, true_or, true_and, Nat.mul_comm value 10]

/-- Reading on never makes a number smaller. -/
theorem le_of_readGrouped {value n : Nat} {text : List Char}
    (h : readGrouped value text = .ok n) : value ≤ n := by
  induction text generalizing value with
  | nil => exact Nat.le_of_eq (Except.ok.inj h)
  | cons c text ih =>
    rw [readGrouped] at h
    split at h
    · exact ih h
    · split at h
      · cases h
      · have := ih h
        omega

/-- The bounded reader follows the unbounded one up to its bound. -/
theorem readUpTo_of_readGrouped {bound value n : Nat} {overflow : NumeralError}
    {text : List Char} (hsep : '_' ∉ text) (h : readGrouped value text = .ok n)
    (hn : n ≤ bound) : readUpTo bound overflow value text = .ok n := by
  induction text generalizing value with
  | nil => exact h
  | cons c text ih =>
    obtain ⟨hc, htext⟩ : '_' ≠ c ∧ '_' ∉ text := by simpa using hsep
    rw [readGrouped, if_neg hc.symm] at h
    rw [readUpTo]
    split at h
    · cases h
    · next d hd =>
      have hle : value * 10 + d ≤ bound := Nat.le_trans (le_of_readGrouped h) hn
      simpa only [if_pos hle] using ih htext h

theorem not_mem_of_readUpTo {bound value n : Nat} {overflow : NumeralError} {text : List Char}
    (h : readUpTo bound overflow value text = .ok n) {c : Char} (hc : digit? c = none) :
    c ∉ text := by
  induction text generalizing value with
  | nil => simp
  | cons a text ih =>
    rw [readUpTo] at h
    split at h
    · cases h
    · next d hd =>
      split at h
      · rintro (_ | ⟨_, hmem⟩)
        · rw [hc] at hd
          cases hd
        · exact ih h hmem
      · cases h

/-- What the bounded reader reads, the unbounded one reads as well. -/
theorem readGrouped_of_readUpTo {bound value n : Nat} {overflow : NumeralError}
    (hvalue : value ≤ bound) (h : readUpTo bound overflow value text = .ok n) :
    readGrouped value text = .ok n ∧ n ≤ bound := by
  induction text generalizing value with
  | nil => exact ⟨h, Except.ok.inj h ▸ hvalue⟩
  | cons c text ih =>
    rw [readUpTo] at h
    split at h
    · cases h
    · next d hd =>
      split at h
      · next hle =>
        have hc : c ≠ '_' := by
          rintro rfl
          cases hd
        rw [readGrouped, if_neg hc, hd]
        exact ih hle h
      · cases h

/-- **Stopping at the bound is no different from comparing with it at the end.** -/
theorem readUpTo_eq_ok_iff {bound n : Nat} {overflow : NumeralError} (hne : text ≠ []) :
    readUpTo bound overflow 0 text = .ok n ↔
      IsMagnitude false text ∧ n = denoted text ∧ n ≤ bound := by
  obtain ⟨first, rest, rfl⟩ := List.exists_cons_of_ne_nil hne
  constructor
  · intro h
    have hdigits : ∀ c ∈ first :: rest, c.isDigit := by
      intro c hc
      by_contra hdigit
      exact not_mem_of_readUpTo h (digit?_eq_none_iff.2 hdigit) hc
    obtain ⟨hread, hle⟩ := readGrouped_of_readUpTo (Nat.zero_le bound) h
    obtain ⟨hfirst, hrest⟩ := List.forall_mem_cons.1 hdigits
    exact ⟨⟨hfirst, fun c hc => .inl (hrest c hc)⟩, (readGrouped_eq_ok_iff.1 hread).2, hle⟩
  · rintro ⟨⟨hfirst, hrest⟩, hn, hle⟩
    have hdigits : ∀ c ∈ first :: rest, c.isDigit :=
      List.forall_mem_cons.2
        ⟨hfirst, fun c hc => (hrest c hc).elim id fun h => absurd h.1 (by simp)⟩
    exact readUpTo_of_readGrouped (fun hsep => not_isDigit_underscore (hdigits '_' hsep))
      (readGrouped_eq_ok_iff.2 ⟨fun c hc => .inl (hdigits c hc), hn⟩) hle

theorem readMagnitude_eq_ok_iff {n : Nat} :
    readMagnitude text = .ok n ↔ IsMagnitude true text ∧ n = denoted text := by
  unfold readMagnitude
  split
  · simp [IsMagnitude]
  · simp [IsMagnitude, not_isDigit_underscore]
  · next hne hsep =>
    obtain ⟨first, rest, rfl⟩ := List.exists_cons_of_ne_nil hne
    have hfirst : first ≠ '_' := fun h => hsep rest (h ▸ rfl)
    simp only [readGrouped_eq_ok_iff, IsMagnitude, List.forall_mem_cons, hfirst, or_false, true_and,
      denoted]

theorem map_readUpTo_eq_ok_iff {α : Type} {f : Nat → α} {bound : Nat} {overflow : NumeralError}
    {a : α} (hne : text ≠ []) :
    (readUpTo bound overflow 0 text).map f = .ok a ↔
      IsMagnitude false text ∧ denoted text ≤ bound ∧ a = f (denoted text) := by
  rw [map_eq_ok_iff]
  simp only [readUpTo_eq_ok_iff hne]
  constructor
  · rintro ⟨m, ⟨hm, rfl, hle⟩, rfl⟩
    exact ⟨hm, hle, rfl⟩
  · rintro ⟨hm, hle, rfl⟩
    exact ⟨_, ⟨hm, rfl, hle⟩, rfl⟩

theorem map_readMagnitude_eq_ok_iff {α : Type} {f : Nat → α} {a : α} :
    (readMagnitude text).map f = .ok a ↔ IsMagnitude true text ∧ a = f (denoted text) := by
  rw [map_eq_ok_iff]
  simp only [readMagnitude_eq_ok_iff]
  constructor
  · rintro ⟨m, ⟨hm, rfl⟩, rfl⟩
    exact ⟨hm, rfl⟩
  · rintro ⟨hm, rfl⟩
    exact ⟨_, ⟨hm, rfl⟩, rfl⟩

/-! ## Signs -/

theorem not_isMagnitude_cons {c : Char} (h : ¬c.isDigit) : ¬IsMagnitude grouped (c :: text) :=
  fun hm => h hm.1

theorem natural_plus_iff {n : Nat} :
    Natural grouped ('+' :: text) n ↔ IsMagnitude grouped text ∧ n = denoted text := by
  constructor
  · rintro (hm | hm)
    · exact absurd hm (not_isMagnitude_cons (by decide))
    · exact ⟨hm, rfl⟩
  · rintro ⟨hm, rfl⟩
    exact .plus hm

theorem natural_iff_of_ne_plus {n : Nat} (hplus : ∀ digits, text ≠ '+' :: digits) :
    Natural grouped text n ↔ IsMagnitude grouped text ∧ n = denoted text := by
  constructor
  · rintro (hm | hm)
    · exact ⟨hm, rfl⟩
    · exact absurd rfl (hplus _)
  · rintro ⟨hm, rfl⟩
    exact .bare hm

theorem numeral_iff_of_ne_minus {n : Int} (hminus : ∀ digits, text ≠ '-' :: digits) :
    Numeral grouped text n ↔ ∃ m : Nat, Natural grouped text m ∧ n = m := by
  constructor
  · rintro (hn | hm)
    · exact ⟨_, hn, rfl⟩
    · exact absurd rfl (hminus _)
  · rintro ⟨m, hm, rfl⟩
    exact .natural hm

theorem numeral_minus_iff {n : Int} :
    Numeral grouped ('-' :: text) n ↔ IsMagnitude grouped text ∧ n = -(denoted text : Int) := by
  constructor
  · rintro ((hm | _) | hm)
    · exact absurd hm (not_isMagnitude_cons (by decide))
    · exact ⟨hm, rfl⟩
  · rintro ⟨hm, rfl⟩
    exact .minus hm

theorem numeral_plus_iff {n : Int} :
    Numeral grouped ('+' :: text) n ↔ IsMagnitude grouped text ∧ n = denoted text := by
  rw [numeral_iff_of_ne_minus (by simp)]
  simp [natural_plus_iff, and_assoc]

theorem numeral_iff_of_ne {n : Int} (hminus : ∀ digits, text ≠ '-' :: digits)
    (hplus : ∀ digits, text ≠ '+' :: digits) :
    Numeral grouped text n ↔ IsMagnitude grouped text ∧ n = denoted text := by
  rw [numeral_iff_of_ne_minus hminus]
  simp [natural_iff_of_ne_plus hplus, and_assoc]

/-! ## Readers -/

/-- **A number of any size is read from the numerals that denote it.** -/
theorem readInteger_eq_ok_iff {n : Int} : readInteger text = .ok n ↔ Numeral true text n := by
  unfold readInteger
  split
  · simp [numeral_minus_iff, not_isMagnitude_cons]
  · rw [map_readMagnitude_eq_ok_iff, numeral_minus_iff]
    rfl
  · rw [map_readMagnitude_eq_ok_iff, numeral_plus_iff]
    rfl
  · next hminus hplus =>
    rw [map_readMagnitude_eq_ok_iff, numeral_iff_of_ne hminus hplus]
    rfl

/-- A natural number keeps every lower bound that is not above zero. -/
theorem and_congr_natural {P : Prop} {lower upper m : Nat} {n : Int} :
    P ∧ m ≤ upper ∧ n = Int.ofNat m ↔ (P ∧ n = m) ∧ -(lower : Int) ≤ n ∧ n ≤ upper := by
  rw [and_assoc]
  refine and_congr_right fun _ => ⟨?_, ?_⟩
  · rintro ⟨hle, rfl⟩
    exact ⟨rfl, by simp, Int.ofNat_le.2 hle⟩
  · rintro ⟨rfl, -, hle⟩
    exact ⟨Int.ofNat_le.1 hle, rfl⟩

/-- A number between two bounds is read from the numerals without underscores. -/
theorem readBounded_eq_ok_iff {lower upper : Nat} {n : Int} :
    readBounded lower upper text = .ok n ↔
      Numeral false text n ∧ -(lower : Int) ≤ n ∧ n ≤ upper := by
  unfold readBounded
  split
  · simp [numeral_iff_of_ne, IsMagnitude]
  · simp [numeral_plus_iff, IsMagnitude]
  · simp [numeral_minus_iff, IsMagnitude]
  · next digits hne =>
    rw [map_readUpTo_eq_ok_iff (by simpa using hne), numeral_plus_iff]
    exact and_congr_natural
  · next digits hne =>
    rw [map_readUpTo_eq_ok_iff (by simpa using hne), numeral_minus_iff, and_assoc]
    refine and_congr_right fun _ => ⟨?_, ?_⟩
    · rintro ⟨hle, rfl⟩
      exact ⟨rfl, by simpa using hle, by simp⟩
    · rintro ⟨rfl, hle, -⟩
      exact ⟨by omega, rfl⟩
  · next hne _ _ hplus hminus =>
    rw [map_readUpTo_eq_ok_iff (by simpa using hne), numeral_iff_of_ne hminus hplus]
    exact and_congr_natural

/-- **A signed word is read from the numerals without underscores that denote it.** -/
theorem readInt64_eq_ok_iff {n : Int64} :
    readInt64 text = .ok n ↔ Numeral false text n.toInt := by
  rw [readInt64, map_eq_ok_iff]
  simp only [readBounded_eq_ok_iff]
  constructor
  · rintro ⟨m, ⟨hm, hlower, hupper⟩, rfl⟩
    rwa [Int64.toInt_ofInt_of_le (by omega) (by omega)]
  · intro h
    have hlower := n.le_toInt
    have hupper := n.toInt_lt
    exact ⟨n.toInt, ⟨h, by omega, by omega⟩, Int64.ofInt_toInt n⟩

/-- **An unsigned word is read from the numerals without underscores and minus that denote it.** -/
theorem readUInt64_eq_ok_iff {n : UInt64} :
    readUInt64 text = .ok n ↔ Natural false text n.toNat := by
  have hword {m : Nat} : m ≤ 0xFFFFFFFFFFFFFFFF ∧ n = UInt64.ofNat m ↔ n.toNat = m := by
    constructor
    · rintro ⟨hle, rfl⟩
      rw [UInt64.toNat_ofNat', Nat.mod_eq_of_lt (by omega)]
    · rintro rfl
      exact ⟨Nat.le_of_lt_succ n.toNat_lt, (UInt64.ofNat_toNat).symm⟩
  unfold readUInt64
  split
  · simp [natural_iff_of_ne_plus, IsMagnitude]
  · simp [natural_plus_iff, IsMagnitude]
  · next digits hne =>
    rw [map_readUpTo_eq_ok_iff (by simpa using hne), natural_plus_iff, hword]
  · next hne _ hplus =>
    rw [map_readUpTo_eq_ok_iff (by simpa using hne), natural_iff_of_ne_plus hplus, hword]

/-! ## Written numbers -/

theorem isMagnitude_natural (n : Nat) : IsMagnitude grouped (natural n) := by
  obtain ⟨first, rest, h⟩ := List.exists_cons_of_ne_nil (Nat.toDigits_ne_nil (n := n) (b := 10))
  have hdigit : ∀ c ∈ first :: rest, c.isDigit := by
    intro c hc
    rw [← h] at hc
    exact Nat.isDigit_of_mem_toDigits (by decide) (by decide) hc
  obtain ⟨hfirst, hrest⟩ := List.forall_mem_cons.1 hdigit
  rw [natural, h]
  exact ⟨hfirst, fun c hc => .inl (hrest c hc)⟩

theorem denoted_natural (n : Nat) : denoted (natural n) = n := by
  have hfilter : (natural n).filter Char.isDigit = natural n :=
    List.filter_eq_self.2 fun c => Nat.isDigit_of_mem_toDigits (by decide) (by decide)
  rw [denoted, hfilter]
  exact Nat.ofDigitChars_toDigits (by decide) (by decide)

/-- The shortest numeral is one. -/
theorem natural_natural (n : Nat) : Natural grouped (natural n) n := by
  have hm : IsMagnitude grouped (natural n) := isMagnitude_natural n
  have h := Natural.bare hm
  rwa [denoted_natural] at h

theorem numeral_integer (n : Int) : Numeral grouped (integer n) n := by
  cases n with
  | ofNat n => exact .natural (natural_natural n)
  | negSucc n =>
    have hm : IsMagnitude grouped (natural (n + 1)) := isMagnitude_natural (n + 1)
    have h := Numeral.minus hm
    rwa [denoted_natural] at h

/-- **A written number of any size is read back.** -/
theorem readInteger_integer (n : Int) : readInteger (integer n) = .ok n :=
  readInteger_eq_ok_iff.2 (numeral_integer n)

/-- **A written word is read back.** -/
theorem readInt64_integer (n : Int64) : readInt64 (integer n.toInt) = .ok n :=
  readInt64_eq_ok_iff.2 (numeral_integer n.toInt)

end CacheClient.Decimal
