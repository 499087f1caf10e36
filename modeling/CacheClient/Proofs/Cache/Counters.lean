import CacheClient.Proofs.Cache
import CacheClient.Proofs.Decimal.Blanks
import CacheClient.Proofs.Utf8

/-!
# Payloads that count

A server counts with the payloads that are a numeral of an unsigned word between blanks of
Unicode (`counter?_eq_some_iff`), and leaves the shortest numeral behind (`counter?_showCounter`).
-/

namespace CacheClient.Cache

open Decimal

/-- The bytes are a text that is one of the numerals of a natural number, between blanks. -/
def ShowsNatural (data : Bytes) (n : Nat) : Prop :=
  ∃ text, data = Utf8.encode text ∧ Padded Text.isBlank (Natural false · n) text

/-- **A payload counts for the unsigned word that it shows.** -/
theorem counter?_eq_some_iff {data : Bytes} {n : UInt64} :
    counter? data = some n ↔ ShowsNatural data n.toNat := by
  have hread (text : List Char) :
      readUInt64 (Text.trim Text.isBlank text) = .ok n ↔
        Padded Text.isBlank (Natural false · n.toNat) text :=
    readUInt64_eq_ok_iff.trans Natural.trim_iff
  rw [counter?]
  constructor
  · intro h
    split at h
    · cases h
    · next text htext =>
      split at h
      · next m hm =>
        obtain rfl := Option.some.inj h
        exact ⟨text, Utf8.decode?_eq_some_iff.1 htext, (hread text).1 hm⟩
      · cases h
  · rintro ⟨text, rfl, htext⟩
    simp only [Utf8.decode?_encode, (hread text).2 htext]

theorem counter?_showCounter (n : UInt64) : counter? (showCounter n) = some n :=
  counter?_eq_some_iff.2 ⟨natural n.toNat, rfl, .of_core (natural_natural n.toNat)⟩

theorem showCounter_ne_nil (n : UInt64) : showCounter n ≠ [] := by
  intro h
  have htext : natural n.toNat = [] := by
    refine Option.some.inj ?_
    rw [← Utf8.decode?_encode, ← Utf8.decode?_encode []]
    exact congrArg Utf8.decode? h
  have hmagnitude : IsMagnitude false (natural n.toNat) := isMagnitude_natural n.toNat
  rw [htext] at hmagnitude
  exact hmagnitude

/-- **Counting with a live item that shows a number** gives the next one, which the item shows
from then on. -/
theorem count_of_live (change : UInt64 → UInt64) {now : Nat} {k : Key} {c : Cache} {i : Entry}
    {n : UInt64} (hi : c.live? now k = some i) (hn : counter? i.data = some n) :
    (c.count now change k).1 = .counter (some (change n)) ∧
      (c.count now change k).2.items[k]? =
        some { i with data := showCounter (change n), token := c.lastToken + 1 } := by
  have ht := touched_touch now k c
  rw [count]
  generalize c.touch now k = t at ht
  rw [← ht.lastToken]
  simp only [ht.self, hi, hn, getElem?_update, if_true, and_self]

theorem counter?_of_zero_mem {data : Bytes} (h : 0 ∈ data) : counter? data = none := by
  rw [Option.eq_none_iff_forall_ne_some]
  intro n hn
  obtain ⟨text, rfl, front, core, back, rfl, hfront, hback, hcore⟩ := counter?_eq_some_iff.1 hn
  have hmem : Char.ofNat 0 ∈ front ++ core ++ back :=
    Utf8.mem_of_decode? (by decide) h (Utf8.decode?_encode _)
  simp only [List.mem_append] at hmem
  rcases hmem with (hmem | hmem) | hmem
  · exact absurd (hfront _ hmem) (by decide)
  · exact absurd (hcore.printable hmem).1 (by decide)
  · exact absurd (hback _ hmem) (by decide)

end CacheClient.Cache
