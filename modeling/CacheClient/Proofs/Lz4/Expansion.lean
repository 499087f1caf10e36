import CacheClient.Lz4

/-!
# Expanding what was written

What a compressor has to get right, apart from any search: each of its sequences carries the
output from a prefix of the input to a longer one (`Sequence.Carries`), which for the copy means
that its bytes were compared with those `offset` before them. The copy may overlap itself, so it
is followed byte by byte (`copyBack_eq_extract`).

Main result: a block whose sequences carry the output through the input, and whose tail is the
rest of it, is written and expanded to the input (`expandOnto_write`). With bytes behind it the
block cannot be expanded, because the output is full (`expandOnto_write_append`).
-/

namespace CacheClient.Lz4

/-! ## Counts -/

theorem toNat_token_div (a b : Nat) : (token a b).toNat / 16 = min a 15 := by
  rw [token, UInt8.toNat_ofNat']
  omega

theorem toNat_token_mod (a b : Nat) : (token a b).toNat % 16 = min b 15 := by
  rw [token, UInt8.toNat_ofNat']
  omega

theorem readExtension_replicate (n k r : Nat) (hr : r < 255) (rest : Bytes) :
    readExtension n (List.replicate k 255 ++ UInt8.ofNat r :: rest) =
      some (n + 255 * k + r, rest) := by
  induction k generalizing n with
  | zero =>
    have hbyte : (UInt8.ofNat r).toNat = r := by
      rw [UInt8.toNat_ofNat', Nat.mod_eq_of_lt (by omega)]
    have hlast : UInt8.ofNat r ≠ 255 := by
      intro h
      rw [h] at hbyte
      exact Nat.ne_of_lt hr hbyte.symm
    simp [readExtension, hlast, hbyte]
  | succ k ih =>
    rw [List.replicate_succ, List.cons_append, readExtension, if_pos rfl, ih]
    congr 2
    omega

theorem readCount_extension (n : Nat) (rest : Bytes) :
    readCount (min n 15) (extension n ++ rest) = some (n, rest) := by
  rw [readCount, extension]
  by_cases h : n < 15
  · rw [if_pos (by omega), if_pos h, Nat.min_eq_left (by omega), List.nil_append]
  · rw [if_neg (by omega), if_neg h, List.append_assoc, List.singleton_append,
      readExtension_replicate 15 _ _ (Nat.mod_lt _ (by decide))]
    congr 2
    omega

/-! ## Copies -/

theorem getD_extract {d : Array UInt8} {p i : Nat} (hi : i < p) (hp : p ≤ d.size) :
    (d.extract 0 p).getD i 0 = d.getD i 0 := by
  simp [Array.getD, show i < d.size by omega, show i < min p d.size by omega]

/-- A copy whose bytes were compared goes on with the input. -/
theorem copyBack_eq_extract {d : Array UInt8} {offset length p : Nat} (hpos : 0 < offset)
    (hback : offset ≤ p) (hlen : p + length ≤ d.size)
    (hagree : ∀ i < length, d.getD (p + i) 0 = d.getD (p + i - offset) 0) :
    copyBack offset length (d.extract 0 p) = d.extract 0 (p + length) := by
  induction length generalizing p with
  | zero => rfl
  | succ length ih =>
    have hsize : (d.extract 0 p).size = p := Array.size_extract_of_le (by omega)
    have hbyte : (d.extract 0 p).getD (p - offset) 0 = d[p] := by
      rw [getD_extract (by omega) (by omega)]
      exact (hagree 0 (Nat.succ_pos length)).symm.trans (dif_pos (by omega))
    have hpush : (d.extract 0 p).push d[p] = d.extract 0 (p + 1) := by
      rw [Array.push_extract_getElem (by omega), Nat.min_eq_left (Nat.zero_le p)]
    rw [copyBack, hsize, hbyte, hpush, ih (by omega) (by omega)]
    · rw [Nat.add_right_comm, Nat.add_assoc]
    · intro i hi
      rw [Nat.add_right_comm, Nat.add_assoc]
      exact hagree (i + 1) (by omega)

/-! ## Sequences -/

/-- The sequence carries the output from the first `p` bytes of the input to the first `q`: its
literals come next in the input, and its copy repeats the bytes `offset` before it. -/
structure Sequence.Carries (s : Sequence) (d : Array UInt8) (p q : Nat) : Prop where
  literals : s.literals = (d.extract p (p + s.literals.length)).toList
  offset_pos : 0 < s.offset
  offset_le : s.offset ≤ p + s.literals.length
  offset_lt : s.offset < Bytes.span 2
  length_ge : minLength ≤ s.length
  agrees : ∀ i < s.length, d.getD (p + s.literals.length + i) 0 =
    d.getD (p + s.literals.length + i - s.offset) 0
  ends : p + s.literals.length + s.length = q
  stays : q ≤ d.size

/-- Several sequences, one after the other. -/
inductive Carry (d : Array UInt8) : List Sequence → Nat → Nat → Prop
  | nil (p : Nat) : Carry d [] p p
  | cons {s : Sequence} {rest : List Sequence} {p q r : Nat} : s.Carries d p q →
      Carry d rest q r → Carry d (s :: rest) p r

theorem Carry.snoc {d : Array UInt8} {ss : List Sequence} {s : Sequence} {p q r : Nat}
    (h : Carry d ss p q) (hs : s.Carries d q r) : Carry d (ss ++ [s]) p r := by
  induction h with
  | nil p => exact .cons hs (.nil r)
  | cons h _ ih => exact .cons h (ih hs)

/-! ## Expanding -/

section Step

variable {capacity count : Nat} {out : Array UInt8} {tok : UInt8}
  {input afterCount literals : Bytes}

theorem expandOnto_eq_ok (hcount : readCount (tok.toNat / 16) input = some (count, afterCount))
    (hlits : Bytes.split? count afterCount = some (literals, []))
    (hcap : out.size + count ≤ capacity) :
    expandOnto capacity out (tok :: input) = .ok (literals.foldl Array.push out).toList := by
  rw [expandOnto]
  split
  · next h => rw [hcount] at h; cases h
  · next h =>
    rw [hcount] at h
    cases h
    split
    · next h => rw [hlits] at h; cases h
    · next h =>
      rw [hlits] at h
      cases h
      exact if_neg (Nat.not_lt.2 hcap)

/-- Literals with a copy behind them are put out and the copy is carried out, if it is in
bounds. -/
theorem expandOnto_eq_expandOnto {lo hi : UInt8} {afterOffset rest : Bytes} {extra : Nat}
    (hcount : readCount (tok.toNat / 16) input = some (count, afterCount))
    (hlits : Bytes.split? count afterCount = some (literals, lo :: hi :: afterOffset))
    (hextra : readCount (tok.toNat % 16) afterOffset = some (extra, rest))
    (hpos : 0 < lo.toNat + 256 * hi.toNat)
    (hback : lo.toNat + 256 * hi.toNat ≤ (literals.foldl Array.push out).size)
    (hcap : out.size + count ≤ capacity)
    (hcap' : (literals.foldl Array.push out).size + (minLength + extra) ≤ capacity) :
    expandOnto capacity out (tok :: input) =
      expandOnto capacity (copyBack (lo.toNat + 256 * hi.toNat) (minLength + extra)
        (literals.foldl Array.push out)) rest := by
  rw [expandOnto]
  split
  · next h => rw [hcount] at h; cases h
  · next h =>
    rw [hcount] at h
    cases h
    split
    · next h => rw [hlits] at h; cases h
    · next h =>
      rw [hlits] at h
      cases h
      rw [if_neg (Nat.not_lt.2 hcap)]
      dsimp only
      rw [if_neg (Nat.ne_of_gt hpos)]
      split
      · next h => rw [hextra] at h; cases h
      · next h =>
        rw [hextra] at h
        cases h
        rw [if_neg (Nat.not_lt.2 hcap'), if_neg (Nat.not_lt.2 hback)]

/-- Nothing may come behind the literals that fill the output. -/
theorem expandOnto_eq_error {rest : Bytes}
    (hcount : readCount (tok.toNat / 16) input = some (count, afterCount))
    (hlits : Bytes.split? count afterCount = some (literals, rest)) (hrest : rest ≠ [])
    (hfull : out.size + count = capacity) :
    ∃ cause, expandOnto capacity out (tok :: input) = .error cause := by
  have hlen : literals.length = count := (Bytes.split?_eq_some_iff.1 hlits).1
  have hsize : (literals.foldl Array.push out).size = capacity := by
    simp [List.foldl_push_eq_append', hlen, hfull]
  rw [expandOnto]
  split
  · exact ⟨_, rfl⟩
  · next h =>
    rw [hcount] at h
    cases h
    split
    · exact ⟨_, rfl⟩
    · next h =>
      rw [hlits] at h
      cases h
      rw [if_neg (Nat.not_lt.2 (Nat.le_of_eq hfull))]
      dsimp only
      split
      · exact absurd rfl hrest
      · exact ⟨_, rfl⟩
      · -- a copy would need an offset, and room for four bytes at least
        split
        · exact ⟨_, rfl⟩
        · split
          · exact ⟨_, rfl⟩
          · next extra _ _ =>
            rw [if_pos (by rw [hsize, minLength]; omega)]
            exact ⟨_, rfl⟩

end Step

theorem split?_append (front rest : Bytes) :
    Bytes.split? front.length (front ++ rest) = some (front, rest) :=
  Bytes.split?_eq_some_iff.2 ⟨rfl, rfl⟩

theorem foldl_push_extract {d : Array UInt8} {p q : Nat} (h : p ≤ q) :
    (d.extract p q).toList.foldl Array.push (d.extract 0 p) = d.extract 0 q := by
  rw [List.foldl_push_eq_append', Array.toArray_toList, Array.extract_append_extract,
    Nat.min_eq_left (Nat.zero_le p), Nat.max_eq_right h]

variable {d : Array UInt8} {capacity : Nat}

theorem expandOnto_tail {p : Nat} (hp : p ≤ d.size) (hcap : d.size ≤ capacity) :
    expandOnto capacity (d.extract 0 p) (Block.write ⟨[], (d.extract p d.size).toList⟩) =
      .ok d.toList := by
  have hfold := foldl_push_extract (d := d) hp
  have hlen : (d.extract 0 p).size + (d.extract p d.size).toList.length = d.size := by
    rw [Array.length_toList, Array.size_extract_of_le hp, Array.size_extract_of_le (Nat.le_refl _)]
    omega
  generalize (d.extract p d.size).toList = tail at hfold hlen ⊢
  have hcount : readCount ((token tail.length 0).toNat / 16) (extension tail.length ++ tail) =
      some (tail.length, tail) := by
    rw [toNat_token_div, readCount_extension]
  have hsplit := split?_append tail []
  rw [List.append_nil] at hsplit
  rw [Block.write, List.flatMap_nil, List.nil_append,
    expandOnto_eq_ok hcount hsplit (by omega), hfold, Array.extract_size]

/-- Bytes behind the tail of a block are not read, but reported. -/
theorem expandOnto_tail_append {p : Nat} (hp : p ≤ d.size) {rest : Bytes} (hrest : rest ≠ []) :
    ∃ cause, expandOnto d.size (d.extract 0 p)
      (Block.write ⟨[], (d.extract p d.size).toList⟩ ++ rest) = .error cause := by
  have hlen : (d.extract 0 p).size + (d.extract p d.size).toList.length = d.size := by
    rw [Array.length_toList, Array.size_extract_of_le hp, Array.size_extract_of_le (Nat.le_refl _)]
    omega
  generalize (d.extract p d.size).toList = tail at hlen ⊢
  have hcount : readCount ((token tail.length 0).toNat / 16)
      (extension tail.length ++ (tail ++ rest)) = some (tail.length, tail ++ rest) := by
    rw [toNat_token_div, readCount_extension]
  rw [Block.write, List.flatMap_nil, List.nil_append, List.cons_append, List.append_assoc]
  exact expandOnto_eq_error hcount (split?_append tail rest) hrest hlen

theorem expandOnto_sequence {s : Sequence} {p q : Nat} (h : s.Carries d p q)
    (hcap : d.size ≤ capacity) (rest : Bytes) :
    expandOnto capacity (d.extract 0 p) (s.write ++ rest) =
      expandOnto capacity (d.extract 0 q) rest := by
  obtain ⟨hlits, hpos, hback, hlt, hlong, hagree, hends, hstays⟩ := h
  -- The pieces of the sequence, as they are read.
  have hout : (d.extract 0 p).size = p := Array.size_extract_of_le (by omega)
  have hfold : s.literals.foldl Array.push (d.extract 0 p) =
      d.extract 0 (p + s.literals.length) := by
    conv => lhs; rw [hlits]
    exact foldl_push_extract (Nat.le_add_right p _)
  have hout' : (d.extract 0 (p + s.literals.length)).size = p + s.literals.length :=
    Array.size_extract_of_le (by omega)
  have hoffset := Bytes.toNat_littleEndian hlt
  simp only [Bytes.littleEndian, Bytes.toNat, Nat.mul_zero, Nat.add_zero] at hoffset
  have hlength : minLength + (s.length - minLength) = s.length := Nat.add_sub_cancel' hlong
  -- What the copy gives.
  have hcopy := copyBack_eq_extract hpos hback (by omega) hagree
  rw [hends] at hcopy
  simp only [Sequence.write, Bytes.littleEndian, List.cons_append, List.append_assoc,
    List.nil_append]
  rw [expandOnto_eq_expandOnto (by rw [toNat_token_div, readCount_extension])
    (split?_append s.literals _) (by rw [toNat_token_mod, readCount_extension])
    (by omega) (by rw [hfold, hout']; omega) (by omega) (by rw [hfold, hout']; omega),
    hoffset, hlength, hfold, hcopy]

/-- **A block that carries the output through the input is expanded to the input.** -/
theorem expandOnto_write {ss : List Sequence} {p q : Nat} (h : Carry d ss p q) (hq : q ≤ d.size)
    (hcap : d.size ≤ capacity) :
    expandOnto capacity (d.extract 0 p) (Block.write ⟨ss, (d.extract q d.size).toList⟩) =
      .ok d.toList := by
  induction h with
  | nil p => exact expandOnto_tail hq hcap
  | cons h _ ih =>
    have ih := ih hq
    rw [Block.write] at ih
    rw [Block.write, List.flatMap_cons, List.append_assoc, expandOnto_sequence h hcap, ih]

/-- A block that carries the output through the input cannot be expanded with bytes behind it. -/
theorem expandOnto_write_append {ss : List Sequence} {p q : Nat} (h : Carry d ss p q)
    (hq : q ≤ d.size) {rest : Bytes} (hrest : rest ≠ []) :
    ∃ cause, expandOnto d.size (d.extract 0 p)
      (Block.write ⟨ss, (d.extract q d.size).toList⟩ ++ rest) = .error cause := by
  induction h with
  | nil p => exact expandOnto_tail_append hq hrest
  | cons h _ ih =>
    have ih := ih hq
    rw [Block.write] at ih
    rwa [Block.write, List.flatMap_cons, List.append_assoc, List.append_assoc,
      expandOnto_sequence h (Nat.le_refl _), ← List.append_assoc]

end CacheClient.Lz4
