import CacheClient.Bytes

/-!
# Shapes and data

A shape says what the values of a type look like; a datum is such a value. The two meet in
`Shape.Holds`. The layout in bytes says nothing about its own shape, so a reader has to know it.

Two kinds of data have no shape, because they cannot be written: a sequence whose length is not
known beforehand, and a part that refuses.
-/

namespace CacheClient

/-- What the values of a type look like. Widths are in bytes. -/
inductive Shape where
  | natural (width : Nat)
  | integer (width : Nat)
  | bool
  | char
  | text
  | unit
  | option (item : Shape)
  | list (item : Shape)
  /-- A map from text. -/
  | dict (item : Shape)
  /-- Parts in a fixed order. -/
  | tuple (items : List Shape)
  /-- One of several variants, each with its own content. -/
  | choice (variants : List Shape)
  /-- A labelled node and the list of its children, which are trees of the same shape. -/
  | tree (label : Shape)

/-- A value to be written, or one that was read. -/
inductive Datum where
  | natural (width n : Nat)
  | integer (width : Nat) (n : Int)
  | bool (b : Bool)
  | char (c : Char)
  | text (s : String)
  | unit
  | none
  | some (item : Datum)
  | list (items : List Datum)
  | dict (entries : List (String × Datum))
  | tuple (items : List Datum)
  | variant (index : Nat) (content : Datum)
  | node (label : Datum) (children : List Datum)
  /-- A sequence whose length is not known before its end. -/
  | stream (items : List Datum)
  /-- A part that does not let itself be written. -/
  | refusal (reason : String)

namespace Datum

/-! ## Maps from text -/

/-- Put an entry where its key belongs; of two with one key, the new one stays. -/
def insertEntry {α : Type} (key : String) (x : α) : List (String × α) → List (String × α)
  | [] => [(key, x)]
  | (k, y) :: rest =>
    match compare key k with
    | .lt => (key, x) :: (k, y) :: rest
    | .eq => (key, x) :: rest
    | .gt => (k, y) :: insertEntry key x rest

/-- The entries in ascending order of their keys. Of several with one key, the last stays. -/
def sortEntries {α : Type} (entries : List (String × α)) : List (String × α) :=
  entries.foldl (fun sorted entry => insertEntry entry.1 entry.2 sorted) []

/-- The map with these entries. -/
def ofEntries (entries : List (String × Datum)) : Datum :=
  .dict (sortEntries entries)

end Datum

/-! ## Which data have a shape -/

/-- The number of lengths that eight bytes can give. -/
def maxCount : Nat := Bytes.span 8

/-- A tree all of whose labels satisfy `P`. -/
inductive TreeOf (P : Datum → Prop) : Datum → Prop where
  | node {label : Datum} {children : List Datum} : P label → children.length < maxCount →
      (∀ child ∈ children, TreeOf P child) → TreeOf P (.node label children)

mutual

/-- The datum is a value of the shape. -/
def Shape.Holds : Shape → Datum → Prop
  | .natural w, .natural v n => v = w ∧ n < Bytes.span w
  | .integer w, .integer v n => v = w ∧ -(Bytes.span w : Int) ≤ 2 * n ∧ 2 * n < Bytes.span w
  | .bool, .bool _ => True
  | .char, .char _ => True
  | .text, .text s => s.utf8ByteSize < maxCount
  | .unit, .unit => True
  | .option _, .none => True
  | .option item, .some x => item.Holds x
  | .list item, .list xs => xs.length < maxCount ∧ ∀ x ∈ xs, item.Holds x
  | .dict item, .dict entries =>
    entries.length < maxCount ∧ entries.Pairwise (fun a b => a.1 < b.1) ∧
      ∀ entry ∈ entries, entry.1.utf8ByteSize < maxCount ∧ item.Holds entry.2
  | .tuple items, .tuple xs => Shape.HoldsAll items xs
  | .choice variants, .variant i x => variants.length ≤ Bytes.span 4 ∧ Shape.HoldsNth variants i x
  | .tree label, x => TreeOf label.Holds x
  | _, _ => False

/-- The data are values of the shapes, one by one. -/
def Shape.HoldsAll : List Shape → List Datum → Prop
  | [], [] => True
  | s :: shapes, x :: xs => s.Holds x ∧ HoldsAll shapes xs
  | _, _ => False

/-- The datum is a value of the shape with that index. -/
def Shape.HoldsNth : List Shape → Nat → Datum → Prop
  | [], _, _ => False
  | s :: _, 0, x => s.Holds x
  | _ :: shapes, i + 1, x => HoldsNth shapes i x

end

end CacheClient
