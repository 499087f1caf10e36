import CacheClient.Object.Layout
import CacheClient.Proofs.Utf8

/-!
# Objects are read back

A reader **reads** a value from some bytes (`Object.Reads`) if it takes exactly these bytes off the
front of any input and gives the value, whatever follows them. Readers that are put one after the
other read what was written one after the other (`Reads.bind`), so each layout is read back part
by part: numbers, lengths, texts, and then the data that are made of them.

The proof that a datum is read back (`carried`) follows its shape. A tree is the one place where
the reader does not follow the shape but counts levels down; it gets as many levels as the input
has bytes, and each level takes eight bytes for the number of its children.

Main result: `carried`. What has a shape can also be written.
-/

namespace CacheClient

namespace Object

/-! ## Readers -/

/-- The reader takes these bytes off the front of any input, and gives the value. -/
def Reads {α : Type} (reader : Reader α) (bytes : Bytes) (x : α) : Prop :=
  ∀ rest, reader (bytes ++ rest) = .ok (x, rest)

section

variable {α β : Type} {reader : Reader α} {bytes more : Bytes} {x : α} {y : β}

theorem Reads.pure (x : α) : Reads (pure x) [] x := fun _ => rfl

theorem Reads.bind {next : α → Reader β} (h : Reads reader bytes x) (h' : Reads (next x) more y) :
    Reads (reader >>= next) (bytes ++ more) y := by
  intro rest
  show (reader (bytes ++ more ++ rest) >>= fun p => next p.1 p.2) = _
  rw [List.append_assoc, h]
  exact h' rest

theorem Reads.bind_nil {next : α → Reader β} (h : Reads reader bytes x)
    (h' : Reads (next x) [] y) : Reads (reader >>= next) bytes y := by
  rw [← List.append_nil bytes]
  exact h.bind h'

theorem Reads.map (h : Reads reader bytes x) (f : α → β) :
    Reads (do return f (← reader)) bytes (f x) :=
  h.bind_nil (.pure (f x))

end

/-! ## Numbers, characters and texts -/

theorem reads_bytes (bytes : Bytes) (short : Fault) :
    Reads (readBytes bytes.length short) bytes bytes := by
  intro rest
  rw [readBytes, Bytes.split?_eq_some_iff.2 ⟨rfl, rfl⟩]

theorem reads_natural {width n : Nat} (h : n < Bytes.span width) :
    Reads (readNatural width) (Bytes.littleEndian width n) n := by
  have hbytes := reads_bytes (Bytes.littleEndian width n) .endOfInput
  rw [Bytes.length_littleEndian] at hbytes
  have hmap := hbytes.map Bytes.toNat
  rwa [Bytes.toNat_littleEndian h] at hmap

/-- A number below zero is written as the one that is a whole span above it. -/
theorem reads_integer {width : Nat} {n : Int} (hlow : -(Bytes.span width : Int) ≤ 2 * n)
    (hhigh : 2 * n < Bytes.span width) :
    Reads (readInteger width) (twosComplement width n) n := by
  obtain ⟨m, hm, hlt, hread⟩ : ∃ m : Nat, n % (Bytes.span width : Int) = m ∧ m < Bytes.span width ∧
      (if 2 * m < Bytes.span width then (m : Int) else (m : Int) - Bytes.span width) = n := by
    generalize Bytes.span width = span at hlow hhigh
    by_cases hneg : n < 0
    · have hmod : n % (span : Int) = n + span := by
        rw [← Int.add_emod_right, Int.emod_eq_of_lt (by omega) (by omega)]
      refine ⟨(n + span).toNat, by omega, by omega, ?_⟩
      rw [if_neg (by omega)]
      omega
    · have hmod : n % (span : Int) = n := Int.emod_eq_of_lt (by omega) (by omega)
      refine ⟨n.toNat, by omega, by omega, ?_⟩
      rw [if_pos (by omega)]
      omega
  have hmap := (reads_natural hlt).map fun m =>
    if 2 * m < Bytes.span width then (m : Int) else (m : Int) - Bytes.span width
  rw [hread] at hmap
  rw [twosComplement, hm, Int.toNat_natCast]
  exact hmap

/-- One byte, as it stands in front of what depends on it. -/
theorem reads_byte (b : UInt8) : Reads (readNatural 1) [b] b.toNat :=
  (reads_bytes [b] .endOfInput).map Bytes.toNat

theorem reads_bool (b : Bool) : Reads readBool [if b then 1 else 0] b := by
  cases b with
  | false => exact (reads_byte 0).bind (.pure false)
  | true => exact (reads_byte 1).bind (.pure true)

theorem reads_char (c : Char) : Reads readChar (String.utf8EncodeChar c) c := by
  intro rest
  rw [readChar, Utf8.front_utf8EncodeChar]

theorem reads_text {s : String} (h : s.utf8ByteSize < maxCount) :
    Reads readText (writeText s) s := by
  rw [← Utf8.length_ofString] at h
  refine (reads_natural h).bind ((reads_bytes _ _).bind_nil ?_)
  rw [Utf8.fault?_ofString, Utf8.lossy_ofString]
  exact .pure s

/-! ## Sequences -/

section

variable {α : Type} {reader : Reader α} {put : α → Bytes} {xs : List α}

theorem reads_repeatOnto (h : ∀ x ∈ xs, Reads reader (put x) x) (done : List α) :
    Reads (repeatOnto reader done xs.length) (xs.flatMap put) (done.reverse ++ xs) := by
  induction xs generalizing done with
  | nil =>
    rw [List.append_nil]
    exact .pure done.reverse
  | cons x xs ih =>
    rw [List.forall_mem_cons] at h
    have hrest := ih h.2 (x :: done)
    rw [List.reverse_cons, List.append_assoc] at hrest
    exact h.1.bind hrest

/-- As many values are read as were counted. -/
theorem reads_many (hcount : xs.length < maxCount) (h : ∀ x ∈ xs, Reads reader (put x) x) :
    Reads (readMany reader) (writeCount xs.length ++ xs.flatMap put) xs :=
  (reads_natural hcount).bind (reads_repeatOnto h [])

end

/-! ## Maps in the order of their keys -/

/-- An entry with a greater key than all others comes last. -/
theorem insertEntry_of_forall_lt {α : Type} {entries : List (String × α)} {key : String}
    (h : ∀ entry ∈ entries, entry.1 < key) (x : α) :
    Datum.insertEntry key x entries = entries ++ [(key, x)] := by
  induction entries with
  | nil => rfl
  | cons entry entries ih =>
    rw [List.forall_mem_cons] at h
    have hgt : compare key entry.1 = .gt :=
      (compareOfLessAndEq_eq_gt String.le_antisymm String.le_total String.not_le key entry.1).2 h.1
    rw [Datum.insertEntry, hgt, ih h.2]
    rfl

theorem foldl_insertEntry {α : Type} {entries done : List (String × α)}
    (h : (done ++ entries).Pairwise fun a b => a.1 < b.1) :
    entries.foldl (fun sorted entry => Datum.insertEntry entry.1 entry.2 sorted) done =
      done ++ entries := by
  induction entries generalizing done with
  | nil => rw [List.append_nil, List.foldl_nil]
  | cons entry entries ih =>
    have hlast : ∀ e ∈ done, e.1 < entry.1 := fun e he =>
      (List.pairwise_append.1 h).2.2 e he entry List.mem_cons_self
    rw [List.append_cons] at h ⊢
    rw [List.foldl_cons, insertEntry_of_forall_lt hlast, ih h]

/-- Entries that are in order stay as they are. -/
theorem ofEntries_of_pairwise {entries : List (String × Datum)}
    (h : entries.Pairwise fun a b => a.1 < b.1) : Datum.ofEntries entries = .dict entries := by
  rw [Datum.ofEntries, Datum.sortEntries, foldl_insertEntry, List.nil_append]
  exact h

/-! ## What is made of several data -/

theorem writeAll_eq (xs : List Datum) : writeAll xs = xs.flatMap write := by
  induction xs with
  | nil => rfl
  | cons x xs ih => rw [writeAll, ih, List.flatMap_cons]

theorem writeEntries_eq (entries : List (String × Datum)) :
    writeEntries entries = entries.flatMap fun entry => writeText entry.1 ++ write entry.2 := by
  induction entries with
  | nil => rfl
  | cons entry entries ih => rw [writeEntries, ih, List.flatMap_cons]

theorem obstacleIn?_eq_none {xs : List Datum} (h : ∀ x ∈ xs, obstacle? x = none) :
    obstacleIn? xs = none := by
  induction xs with
  | nil => rfl
  | cons x xs ih =>
    rw [List.forall_mem_cons] at h
    rw [obstacleIn?, h.1, ih h.2]
    rfl

theorem obstacleAmong?_eq_none {entries : List (String × Datum)}
    (h : ∀ entry ∈ entries, obstacle? entry.2 = none) : obstacleAmong? entries = none := by
  induction entries with
  | nil => rfl
  | cons entry entries ih =>
    rw [List.forall_mem_cons] at h
    rw [obstacleAmong?, h.1, ih h.2]
    rfl

theorem length_write_le {x : Datum} {xs : List Datum} (h : x ∈ xs) :
    (write x).length ≤ (writeAll xs).length := by
  induction xs with
  | nil => cases h
  | cons y xs ih =>
    rw [writeAll, List.length_append]
    rcases List.mem_cons.1 h with rfl | h
    · omega
    · have hle := ih h
      omega

/-! ## Data that are carried -/

/-- The datum can be written, and the reader reads it back. -/
structure Carried (reader : Reader Datum) (x : Datum) : Prop where
  writable : obstacle? x = none
  reads : Reads reader (write x) x

section

variable {item : Shape} {x : Datum} {xs : List Datum} {entries : List (String × Datum)}

theorem Carried.option (h : Carried (read item) x) : Carried (read (.option item)) (.some x) where
  writable := h.writable
  reads := (reads_byte 1).bind (h.reads.map Datum.some)

theorem Carried.list (hcount : xs.length < maxCount) (h : ∀ x ∈ xs, Carried (read item) x) :
    Carried (read (.list item)) (.list xs) where
  writable := obstacleIn?_eq_none fun x hx => (h x hx).writable
  reads := by
    rw [write, writeAll_eq]
    exact (reads_many hcount fun x hx => (h x hx).reads).map Datum.list

theorem Carried.dict (hcount : entries.length < maxCount)
    (horder : entries.Pairwise fun a b => a.1 < b.1)
    (h : ∀ entry ∈ entries, entry.1.utf8ByteSize < maxCount ∧ Carried (read item) entry.2) :
    Carried (read (.dict item)) (.dict entries) where
  writable := obstacleAmong?_eq_none fun entry he => (h entry he).2.writable
  reads := by
    rw [write, writeEntries_eq, ← ofEntries_of_pairwise horder]
    refine (reads_many hcount fun entry he => ?_).map Datum.ofEntries
    exact (reads_text (h entry he).1).bind ((h entry he).2.reads.map (Prod.mk entry.1))

/-- A tree is read if there are as many levels as it has bytes: every level takes some for the
number of its children. -/
theorem Carried.tree (hlabel : ∀ x, item.Holds x → Carried (read item) x)
    (h : TreeOf item.Holds x) {depth : Nat} (hdepth : (write x).length ≤ depth) :
    Carried (readTree (read item) depth) x := by
  induction h generalizing depth with
  | @node label children hholds hcount _ ih =>
    rw [write, List.length_append, List.length_append, writeCount, Bytes.length_littleEndian]
      at hdepth
    obtain ⟨depth, rfl⟩ : ∃ n, depth = n + 1 := Nat.exists_eq_add_one.2 (by omega)
    have hchild : ∀ child ∈ children, Carried (readTree (read item) depth) child := by
      intro child hmem
      have hle := length_write_le hmem
      exact ih child hmem (by omega)
    refine ⟨?_, ?_⟩
    · rw [obstacle?, (hlabel label hholds).writable,
        obstacleIn?_eq_none fun child hmem => (hchild child hmem).writable]
      rfl
    · rw [write, writeAll_eq, List.append_assoc]
      exact (hlabel label hholds).reads.bind
        ((reads_many hcount fun child hmem => (hchild child hmem).reads).map (Datum.node label))

end

mutual

/-- **What has a shape is carried by the reader of the shape.** -/
theorem carried : (shape : Shape) → (x : Datum) → shape.Holds x → Carried (read shape) x
  | .natural w, x, h => by
    cases x with
    | natural v n =>
      obtain ⟨rfl, hn⟩ := h
      exact ⟨rfl, (reads_natural hn).map (Datum.natural v)⟩
    | _ => cases h
  | .integer w, x, h => by
    cases x with
    | integer v n =>
      obtain ⟨rfl, hlow, hhigh⟩ := h
      exact ⟨rfl, (reads_integer hlow hhigh).map (Datum.integer v)⟩
    | _ => cases h
  | .bool, x, h => by
    cases x with
    | bool b => exact ⟨rfl, (reads_bool b).map Datum.bool⟩
    | _ => cases h
  | .char, x, h => by
    cases x with
    | char c => exact ⟨rfl, (reads_char c).map Datum.char⟩
    | _ => cases h
  | .text, x, h => by
    cases x with
    | text s => exact ⟨rfl, (reads_text h).map Datum.text⟩
    | _ => cases h
  | .unit, x, h => by
    cases x with
    | unit => exact ⟨rfl, .pure Datum.unit⟩
    | _ => cases h
  | .option item, x, h => by
    cases x with
    | none => exact ⟨rfl, (reads_byte 0).bind (.pure Datum.none)⟩
    | some x => exact (carried item x h).option
    | _ => cases h
  | .list item, x, h => by
    cases x with
    | list xs => exact .list h.1 fun x hx => carried item x (h.2 x hx)
    | _ => cases h
  | .dict item, x, h => by
    cases x with
    | dict entries =>
      obtain ⟨hcount, horder, hentries⟩ := h
      refine .dict hcount horder fun entry he => ?_
      exact ⟨(hentries entry he).1, carried item entry.2 (hentries entry he).2⟩
    | _ => cases h
  | .tuple items, x, h => by
    cases x with
    | tuple xs =>
      obtain ⟨hwrite, hread⟩ := carriedAll items xs h
      exact ⟨hwrite, hread.map Datum.tuple⟩
    | _ => cases h
  | .choice variants, x, h => by
    cases x with
    | variant i x =>
      obtain ⟨hlength, hnth⟩ := h
      obtain ⟨hlt, hcarried⟩ := carriedNth variants i x hnth
      have hcontent := hcarried (.noVariant i variants.length)
      have hindex : Reads (readNatural 4) (Bytes.littleEndian 4 i) i :=
        reads_natural (Nat.lt_of_lt_of_le hlt hlength)
      exact ⟨hcontent.writable, hindex.bind (hcontent.reads.map (Datum.variant i))⟩
    | _ => cases h
  | .tree label, x, h => by
    have htree {depth : Nat} (hdepth : (write x).length ≤ depth) :
        Carried (readTree (read label) depth) x :=
      .tree (carried label) h hdepth
    refine ⟨(htree (Nat.le_refl _)).writable, fun rest => ?_⟩
    refine (htree ?_).reads rest
    rw [List.length_append]
    exact Nat.le_add_right _ _

/-- Data of several shapes are carried one after the other. -/
theorem carriedAll : (shapes : List Shape) → (xs : List Datum) → Shape.HoldsAll shapes xs →
    obstacleIn? xs = none ∧ Reads (readAll shapes) (writeAll xs) xs
  | [], xs, h => by
    cases xs with
    | nil => exact ⟨rfl, .pure []⟩
    | cons x xs => cases h
  | s :: shapes, xs, h => by
    cases xs with
    | nil => cases h
    | cons x xs =>
      have hfirst := carried s x h.1
      obtain ⟨hwrite, hread⟩ := carriedAll shapes xs h.2
      refine ⟨?_, hfirst.reads.bind (hread.map (x :: ·))⟩
      rw [obstacleIn?, hfirst.writable, hwrite]
      rfl

/-- A datum of one of several shapes is carried by the reader that knows which. -/
theorem carriedNth : (shapes : List Shape) → (i : Nat) → (x : Datum) → Shape.HoldsNth shapes i x →
    i < shapes.length ∧ ∀ missing, Carried (readVariant missing shapes i) x
  | [], _, _, h => by cases h
  | s :: _, 0, x, h => ⟨Nat.zero_lt_succ _, fun _ => carried s x h⟩
  | _ :: shapes, i + 1, x, h =>
    have hrest := carriedNth shapes i x h
    ⟨Nat.succ_lt_succ hrest.1, hrest.2⟩

end

end Object

end CacheClient
