import CacheClient.Proofs.Codec.Packing
import CacheClient.Proofs.Object

/-!
# Serialized objects come back

A datum that has a shape can be written (`ofDatum_eq_ok`), and the reader of the shape gets it
back from what was written, whatever follows (`toDatum_append`). Between the two the bytes may be
stored: a codec that stores objects takes them if it has room for them (`exists_encode_object`),
and gives the same bytes back under any threshold.

Main result: `objects_come_back`. Values of the other kinds hold no object of any shape.
-/

namespace CacheClient.Value

variable {shape : Shape} {x : Datum}

theorem ofDatum_eq_ok (h : shape.Holds x) : ofDatum x = .ok (.object (Object.write x)) := by
  rw [ofDatum, (Object.carried shape x h).writable]

theorem toDatum_append (h : shape.Holds x) (more : Bytes) :
    (object (Object.write x ++ more)).toDatum shape = .ok x := by
  rw [toDatum, (Object.carried shape x h).reads more]

theorem toDatum_of_ne {v : Value} (h : v.encoding ≠ .object) :
    v.toDatum shape = .error (.type (.notAnObject v.encoding)) := by
  cases v with
  | object bytes => exact absurd rfl h
  | _ => rfl

/-- Packing never takes more room, so what fits as it is fits under every threshold. -/
theorem exists_encode_object {c : Codec} {bytes : Bytes} (hobjects : c.objects = true)
    (hroom : c.limit = 0 ∨ bytes.length ≤ c.limit) (threshold : Nat) :
    ∃ s, c.encode (.object bytes) threshold = .ok s := by
  have hle : Codec.storedLength (.object bytes) threshold ≤ bytes.length :=
    Codec.storedLength_le (.object bytes) threshold
  refine ⟨_, Codec.encode_eq_ok_iff.2 ⟨?_, ?_, rfl⟩⟩
  · rintro ⟨-, hoff⟩
    cases hobjects.symm.trans hoff
  · rintro ⟨hlimit, hlong⟩
    omega

/-- **Serialized objects come back.** Every datum of a shape can be made an object value. Its
bytes hold the datum, also with anything behind them. A codec that stores objects stores them if
there is room, and what a codec stores of them, under any threshold, is read as a value that
holds the datum. The bytes have to be fewer than 2³², since a packed length takes four. All other
kinds of values are refused at every shape. -/
theorem objects_come_back (shape : Shape) :
    (∀ x, shape.Holds x →
      let bytes := Object.write x
      ofDatum x = .ok (.object bytes) ∧
      (∀ more, (object (bytes ++ more)).toDatum shape = .ok x) ∧
      (bytes.length < Bytes.span 4 → ∀ (c : Codec) (threshold : Nat),
        (c.objects = true → c.limit = 0 ∨ bytes.length ≤ c.limit →
          ∃ s, c.encode (.object bytes) threshold = .ok s) ∧
        ∀ s, c.encode (.object bytes) threshold = .ok s →
          ∃ v, Codec.decode s.data s.flags.bits = .ok v ∧ v.toDatum shape = .ok x)) ∧
    ∀ v : Value, v.encoding ≠ .object →
      v.toDatum shape = .error (.type (.notAnObject v.encoding)) := by
  refine ⟨fun x h => ?_, fun v => toDatum_of_ne⟩
  intro bytes
  have hwhole : (object bytes).toDatum shape = .ok x := by
    rw [← List.append_nil bytes]
    exact toDatum_append h []
  refine ⟨ofDatum_eq_ok h, toDatum_append h, fun hlen c threshold => ?_⟩
  refine ⟨fun hobjects hroom => exists_encode_object hobjects hroom threshold, fun s hs => ?_⟩
  obtain rfl := Codec.eq_pack_of_encode_eq_ok hs
  exact ⟨.object bytes, Codec.decode_pack_bits (v := .object bytes) hlen threshold, hwhole⟩

/-- A list of texts, a map, a variant and a tree take 96 bytes. A codec with room for 100 stores
them under every threshold, and they are read back from what it stores. The bytes can be followed
by others, and are no object if they are those of a raw value. -/
theorem nested_object_comes_back :
    let shape : Shape :=
      .tuple [.list .text, .option (.dict (.integer 2)), .choice [.unit, .char], .tree .bool]
    let x : Datum :=
      .tuple [.list [.text "né", .text "né"],
        .some (.dict [("a", .integer 2 (-1)), ("b", .integer 2 7)]),
        .variant 1 (.char '💾'),
        .node (.bool true) [.node (.bool false) [], .node (.bool false) []]]
    let bytes := Object.write x
    shape.Holds x ∧ ofDatum x = .ok (.object bytes) ∧ bytes.length = 96 ∧
      (∀ threshold, ∃ s v, (Codec.mk 100 true).encode (.object bytes) threshold = .ok s ∧
        Codec.decode s.data s.flags.bits = .ok v ∧ v.toDatum shape = .ok x) ∧
      (object (bytes ++ [1, 2])).toDatum shape = .ok x ∧
      (raw bytes).toDatum shape = .error (.type (.notAnObject .raw)) := by
  intro shape x bytes
  have hleaf : ∀ child ∈ [Datum.node (.bool false) [], .node (.bool false) []],
      TreeOf (Shape.Holds .bool) child := by
    intro child hmem
    obtain rfl : child = .node (.bool false) [] := by simpa using hmem
    exact .node trivial (by decide) (by simp)
  have hholds : shape.Holds x := by
    refine ⟨⟨by decide, ?_⟩, ?_, ?_, .node trivial (by decide) hleaf, trivial⟩
    · have htext : "né".utf8ByteSize < maxCount := by decide +kernel
      simpa [Shape.Holds] using htext
    · refine ⟨by decide, by decide +kernel, ?_⟩
      intro entry hmem
      simp only [List.mem_cons, List.not_mem_nil, or_false] at hmem
      rcases hmem with rfl | rfl <;> exact ⟨by decide +kernel, rfl, by decide, by decide⟩
    · exact ⟨by decide, trivial⟩
  have hlength : bytes.length = 96 := by decide +kernel
  obtain ⟨hobjects, hothers⟩ := objects_come_back shape
  obtain ⟨hwrite, hmore, hstore⟩ := hobjects x hholds
  have hraw := hothers (.raw bytes) (show Encoding.raw ≠ .object by decide)
  refine ⟨hholds, hwrite, hlength, fun threshold => ?_, hmore [1, 2], hraw⟩
  obtain ⟨haccept, hread⟩ := hstore (by rw [hlength]; decide) ⟨100, true⟩ threshold
  have hroom : bytes.length ≤ 100 := by rw [hlength]; decide
  obtain ⟨s, hs⟩ := haccept rfl (.inr hroom)
  obtain ⟨v, hv⟩ := hread s hs
  exact ⟨s, v, hs, hv⟩

end CacheClient.Value
