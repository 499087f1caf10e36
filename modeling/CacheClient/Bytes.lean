/-!
# Byte strings

Payloads, keys and packed blocks are lists of bytes. This module holds the three things every
format needs of them: cutting off a known number of bytes, numbers written with the least
significant byte first, and the byte-by-byte reading of such numbers.

`split?` succeeds exactly when the bytes are there (`split?_eq_some_iff`), and a number of `w`
bytes reads back (`toNat_littleEndian`).
-/

namespace CacheClient

/-- A byte string. -/
abbrev Bytes := List UInt8

namespace Bytes

/-! ## Cutting -/

/-- Cut `n` bytes off the front, onto the reversed bytes `taken`. -/
def splitOnto (taken : Bytes) : Nat → Bytes → Option (Bytes × Bytes)
  | 0, rest => some (taken.reverse, rest)
  | _ + 1, [] => none
  | n + 1, b :: rest => splitOnto (b :: taken) n rest

/-- The first `n` bytes and what follows them, if there are that many. -/
def split? (n : Nat) (bytes : Bytes) : Option (Bytes × Bytes) :=
  splitOnto [] n bytes

theorem splitOnto_eq_some_iff {taken bytes front rest : Bytes} {n : Nat} :
    splitOnto taken n bytes = some (front, rest) ↔
      ∃ mid, mid.length = n ∧ bytes = mid ++ rest ∧ front = taken.reverse ++ mid := by
  induction n generalizing taken bytes with
  | zero =>
    simp only [splitOnto, Option.some.injEq, Prod.mk.injEq, List.length_eq_zero_iff]
    constructor
    · rintro ⟨rfl, rfl⟩
      exact ⟨[], rfl, rfl, by simp⟩
    · rintro ⟨_, rfl, rfl, rfl⟩
      simp
  | succ n ih =>
    cases bytes with
    | nil =>
      simp only [splitOnto, reduceCtorEq, false_iff]
      rintro ⟨mid, hlen, hnil, -⟩
      cases mid with
      | nil => simp at hlen
      | cons => simp at hnil
    | cons b bs =>
      rw [splitOnto, ih]
      constructor
      · rintro ⟨mid, rfl, rfl, rfl⟩
        exact ⟨b :: mid, rfl, rfl, by simp⟩
      · rintro ⟨mid, hlen, hcons, rfl⟩
        cases mid with
        | nil => simp at hlen
        | cons c mid =>
          obtain ⟨rfl, rfl⟩ := List.cons.inj hcons
          exact ⟨mid, by simpa using hlen, rfl, by simp⟩

/-- The cut is where it should be: `n` bytes in front, and nothing lost. -/
theorem split?_eq_some_iff {bytes front rest : Bytes} {n : Nat} :
    split? n bytes = some (front, rest) ↔ front.length = n ∧ bytes = front ++ rest := by
  rw [split?, splitOnto_eq_some_iff]
  constructor
  · rintro ⟨mid, hlen, rfl, rfl⟩
    exact ⟨by simpa using hlen, by simp⟩
  · rintro ⟨hlen, rfl⟩
    exact ⟨front, hlen, rfl, by simp⟩

/-! ## Numbers, least significant byte first -/

/-- The number of values that `w` bytes can take. -/
def span : Nat → Nat
  | 0 => 1
  | w + 1 => 256 * span w

/-- The `w` low bytes of `n`, least significant first. -/
def littleEndian : Nat → Nat → Bytes
  | 0, _ => []
  | w + 1, n => UInt8.ofNat (n % 256) :: littleEndian w (n / 256)

/-- The number whose bytes these are, least significant first. -/
def toNat : Bytes → Nat
  | [] => 0
  | b :: rest => b.toNat + 256 * toNat rest

@[simp] theorem length_littleEndian (w n : Nat) : (littleEndian w n).length = w := by
  induction w generalizing n with
  | zero => rfl
  | succ w ih => simp [littleEndian, ih]

theorem toNat_littleEndian {w n : Nat} (h : n < span w) : toNat (littleEndian w n) = n := by
  induction w generalizing n with
  | zero => simp only [span, Nat.lt_one_iff] at h; simp [littleEndian, toNat, h]
  | succ w ih =>
    rw [span] at h
    have hbyte : (UInt8.ofNat (n % 256)).toNat = n % 256 := by
      rw [UInt8.toNat_ofNat']
      exact Nat.mod_eq_of_lt (Nat.mod_lt n (by decide))
    rw [littleEndian, toNat, ih (by omega), hbyte]
    omega

end Bytes

end CacheClient
