import CacheClient.Proofs.Lz4.Expansion

/-!
# The search finds copies that carry the output

Whatever position the table proposes, a copy is taken up only after its bytes were compared with
those at hand, forwards (`reach`) and then backwards (`agreeBefore`). So each sequence that the
search adds carries the output on (`carries_of_reach`), and the block that it ends with carries
it to where the tail begins (`scan_carry`).

Main result: `decompress_compress`. Bytes behind a packed payload make it unreadable
(`decompress_compress_append_error`).
-/

namespace CacheClient.Lz4

variable {d : Array UInt8}

/-! ## Agreement -/

theorem count_while {P : Nat → Prop} [DecidablePred P] {f : Nat → Nat → Nat}
    (hzero : ∀ count, f count 0 = count)
    (hsucc : ∀ count limit, f count (limit + 1) = if P count then f (count + 1) limit else count)
    (count limit : Nat) :
    count ≤ f count limit ∧ f count limit ≤ count + limit ∧
      ∀ x, count ≤ x → x < f count limit → P x := by
  induction limit generalizing count with
  | zero =>
    rw [hzero]
    refine ⟨Nat.le_refl count, Nat.le_refl count, ?_⟩
    intro x hx hlt
    exact absurd hx (Nat.not_le.2 hlt)
  | succ limit ih =>
    rw [hsucc]
    split
    · next hcount =>
      obtain ⟨hle, hlimit, hwhile⟩ := ih (count + 1)
      refine ⟨by omega, by omega, ?_⟩
      intro x hx hlt
      rcases Nat.eq_or_lt_of_le hx with rfl | hx
      · exact hcount
      · exact hwhile x hx hlt
    · refine ⟨Nat.le_refl count, by omega, ?_⟩
      intro x hx hlt
      exact absurd hx (Nat.not_le.2 hlt)

theorem agreeAfter_spec (d : Array UInt8) (i j count limit : Nat) :
    count ≤ agreeAfter d i j count limit ∧ agreeAfter d i j count limit ≤ count + limit ∧
      ∀ x, count ≤ x → x < agreeAfter d i j count limit → d.getD (i + x) 0 = d.getD (j + x) 0 :=
  count_while (P := fun x => d.getD (i + x) 0 = d.getD (j + x) 0) (fun _ => rfl) (fun _ _ => rfl)
    count limit

theorem agreeBefore_spec (d : Array UInt8) (i j count limit : Nat) :
    count ≤ agreeBefore d i j count limit ∧ agreeBefore d i j count limit ≤ count + limit ∧
      ∀ x, count ≤ x → x < agreeBefore d i j count limit →
        d.getD (i - (x + 1)) 0 = d.getD (j - (x + 1)) 0 :=
  count_while (P := fun x => d.getD (i - (x + 1)) 0 = d.getD (j - (x + 1)) 0) (fun _ => rfl)
    (fun _ _ => rfl) count limit

theorem reach_spec {old cur : Nat} (h : minLength ≤ reach d old cur) :
    old < cur ∧ cur - old ≤ maxOffset ∧ cur + reach d old cur ≤ d.size ∧
      ∀ x < reach d old cur, d.getD (old + x) 0 = d.getD (cur + x) 0 := by
  rw [minLength] at h
  rw [reach] at h ⊢
  split at h
  · next hnear =>
    obtain ⟨-, hlimit, hagree⟩ := agreeAfter_spec d old cur 0 (d.size - copyMargin - cur)
    rw [if_pos hnear]
    exact ⟨hnear.1, hnear.2, by omega, fun x hx => hagree x (Nat.zero_le x) hx⟩
  · exact absurd h (by decide)

/-! ## Sequences -/

/-- **A copy that was compared carries the output on.** The copy starts `before` bytes ahead of
the position at hand, where it agrees backwards, and ends where it agrees no longer. -/
theorem carries_of_reach {start old cur before : Nat} (hstart : start ≤ cur)
    (hreach : minLength ≤ reach d old cur) (hold : before ≤ old) (hcur : before ≤ cur - start)
    (hbefore : ∀ x < before, d.getD (old - (x + 1)) 0 = d.getD (cur - (x + 1)) 0) :
    Sequence.Carries ⟨(d.extract start (cur - before)).toList, cur - old,
      before + reach d old cur⟩ d start (cur + reach d old cur) := by
  obtain ⟨hlt, hnear, hsize, hagree⟩ := reach_spec hreach
  have hlits : start + (d.extract start (cur - before)).toList.length = cur - before := by
    rw [Array.length_toList, Array.size_extract_of_le (by omega)]
    omega
  refine
    { literals := by rw [hlits]
      offset_pos := Nat.sub_pos_of_lt hlt
      offset_le := ?_
      offset_lt := Nat.lt_succ_of_le hnear
      length_ge := Nat.le_trans hreach (Nat.le_add_left _ _)
      agrees := fun i hi => ?_
      ends := ?_
      stays := hsize }
  · rw [hlits]
    dsimp only
    omega
  · rw [hlits]
    dsimp only at hi ⊢
    by_cases hi' : i < before
    · have h := hbefore (before - 1 - i) (by omega)
      rw [show cur - before + i = cur - (before - 1 - i + 1) by omega,
        show cur - (before - 1 - i + 1) - (cur - old) = old - (before - 1 - i + 1) by omega]
      exact h.symm
    · have h := hagree (i - before) (by omega)
      rw [show cur - before + i = cur + (i - before) by omega,
        show cur + (i - before) - (cur - old) = old + (i - before) by omega]
      exact h.symm
  · rw [hlits]
    dsimp only
    omega

/-! ## The search -/

theorem toList_extract_size (d : Array UInt8) (p : Nat) :
    (d.extract p d.size).toList = d.toList.drop p := by
  rw [Array.toList_extract, List.extract_eq_take_drop]
  exact List.take_of_length_le (by simp)

/-- **The block that the search ends with carries the output to its tail**, if the sequences
found so far carry it to `start`. -/
theorem scan_carry (d : Array UInt8) (table : Array Nat) (start cur misses : Nat)
    (found : List Sequence) (hstart : start ≤ cur) (hsize : start ≤ d.size)
    (h : Carry d found.reverse 0 start) :
    ∃ ss q, scan d table start cur misses found = ⟨ss, (d.extract q d.size).toList⟩ ∧
      Carry d ss 0 q ∧ q ≤ d.size := by
  fun_induction scan d table start cur misses found with
  | case1 table start cur misses found hend =>
    exact ⟨found.reverse, start, by rw [toList_extract_size], h, hsize⟩
  | case2 table start cur misses found hend old table' after hreach before next s ih =>
    have hs : s.Carries d start next := by
      obtain ⟨-, hlimit, hagree⟩ := agreeBefore_spec d old cur 0 (min old (cur - start))
      exact carries_of_reach hstart hreach (by omega) (by omega)
        fun x hx => hagree x (Nat.zero_le x) hx
    apply ih (Nat.le_refl next) hs.stays
    rw [List.reverse_cons]
    exact h.snoc hs
  | case3 table start cur misses found hend old table' after hmiss ih =>
    exact ih (by omega) hsize h

theorem blockOf_carry (bytes : Bytes) :
    ∃ ss q, Block.of bytes = ⟨ss, (bytes.toArray.extract q bytes.toArray.size).toList⟩ ∧
      Carry bytes.toArray ss 0 q ∧ q ≤ bytes.toArray.size :=
  scan_carry bytes.toArray (Array.replicate slots 0) 0 1 0 [] (Nat.zero_le 1) (Nat.zero_le _)
    (.nil 0)

/-! ## Packed payloads -/

/-- Unpacking starts behind the length, which is the capacity of the output. -/
theorem decompress_compress_append {bytes : Bytes} (h : bytes.length < Bytes.span 4)
    (rest : Bytes) :
    decompress (compress bytes ++ rest) =
      expandOnto bytes.toArray.size #[] ((Block.of bytes).write ++ rest) := by
  have hsplit := split?_append (Bytes.littleEndian 4 bytes.length) ((Block.of bytes).write ++ rest)
  rw [Bytes.length_littleEndian] at hsplit
  rw [decompress, compress, List.append_assoc, hsplit]
  simp only [Bytes.toNat_littleEndian h, List.size_toArray]

/-- **Unpacking undoes packing**, for payloads whose length fits in the four bytes in front. -/
theorem decompress_compress {bytes : Bytes} (h : bytes.length < Bytes.span 4) :
    decompress (compress bytes) = .ok bytes := by
  obtain ⟨ss, q, hblock, hcarry, hq⟩ := blockOf_carry bytes
  have hexpand := expandOnto_write hcarry hq (Nat.le_refl _)
  rw [Array.extract_zero, ← hblock] at hexpand
  have hstart := decompress_compress_append h []
  rwa [List.append_nil, List.append_nil, hexpand] at hstart

theorem decompress_compress_append_error {bytes rest : Bytes} (h : bytes.length < Bytes.span 4)
    (hrest : rest ≠ []) : ∃ cause, decompress (compress bytes ++ rest) = .error cause := by
  obtain ⟨ss, q, hblock, hcarry, hq⟩ := blockOf_carry bytes
  have hexpand := expandOnto_write_append hcarry hq hrest
  rwa [Array.extract_zero, ← hblock, ← decompress_compress_append h] at hexpand

end CacheClient.Lz4
