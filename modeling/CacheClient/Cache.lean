import CacheClient.Command
import CacheClient.Decimal

/-!
# The cache behind a server

What a server does with commands. An item has its bytes and flags, the token of its present
version and, unless it lives forever, a deadline. An item past its deadline counts as absent; it
goes when a command touches its key.

Tokens are given out in ascending order, one for each change of an item. Appending and
prepending take a token even where there is nothing to change.

Counters are decimal numbers of 64 bits among the items. Incrementing wraps around, decrementing
stops at zero, and flags and deadline stay as they are.
-/

namespace CacheClient

/-- An item as a server keeps it. Its deadline is in milliseconds. -/
structure Cache.Entry where
  data : Bytes
  flags : UInt32
  token : Token
  deadline : Option Nat
deriving DecidableEq

/-- The item is past its deadline. -/
def Cache.Entry.isExpired (now : Nat) (i : Cache.Entry) : Bool :=
  match i.deadline with
  | some deadline => deadline ≤ now
  | none => false

/-- The version that a server reports if it is given no other. -/
def defaultVersion : String := "1.6.21"

/-- The state of a cache: its items, the last token given out, and what it has counted. -/
structure Cache where
  items : KeyMap Cache.Entry := ∅
  lastToken : Token := 0
  version : String := defaultVersion
  connections : Nat := 0
  hits : Nat := 0
  misses : Nat := 0
  stores : Nat := 0

namespace Cache

/-! ## Items -/

/-- The item of a key, unless it is past its deadline. -/
def live? (now : Nat) (k : Key) (c : Cache) : Option Entry :=
  c.items[k]?.filter fun i => !i.isExpired now

/-- Remove the item of a key if it is past its deadline. -/
def touch (now : Nat) (k : Key) (c : Cache) : Cache :=
  match c.items[k]? with
  | some i => if i.isExpired now then { c with items := c.items.erase k } else c
  | none => c

/-- After a touch, the item under a key is the live one. -/
@[simp] theorem getElem?_touch_self (now : Nat) (k : Key) (c : Cache) :
    (c.touch now k).items[k]? = c.live? now k := by
  rw [touch, live?]
  split
  · next i h => split <;> simp_all [Option.filter]
  · next h => simp [h]

/-- A touch leaves other keys alone. -/
theorem getElem?_touch_of_ne {k a : Key} (h : k ≠ a) (now : Nat) (c : Cache) :
    (c.touch now k).items[a]? = c.items[a]? := by
  rw [touch]
  split
  · split <;> simp [KeyMap.getElem?_erase, h]
  · rfl

/-- A touch changes nothing but the items. -/
theorem touch_eq (now : Nat) (k : Key) (c : Cache) :
    c.touch now k = { c with items := (c.touch now k).items } := by
  rw [touch]
  split
  · split <;> rfl
  · rfl

/-- The deadline of an item stored now. A time to live of 0 has no end. -/
def deadline (now : Nat) (ttl : UInt32) : Option Nat :=
  if ttl = 0 then none else some (now + ttl.toNat * 1000)

/-- Put an item in the place of a key, with a new token. -/
def put (now : Nat) (k : Key) (data : Bytes) (ttl flags : UInt32) (c : Cache) : Cache :=
  let token := c.lastToken + 1
  { c with
    items := c.items.insert k ⟨data, flags, token, deadline now ttl⟩
    lastToken := token }

theorem getElem?_put (now : Nat) (k a : Key) (data : Bytes) (ttl flags : UInt32) (c : Cache) :
    (c.put now k data ttl flags).items[a]? =
      if k = a then some ⟨data, flags, c.lastToken + 1, deadline now ttl⟩ else c.items[a]? :=
  KeyMap.getElem?_insert ..

/-- Give the item of a key new bytes, and with them a new token. -/
def update (k : Key) (data : Bytes) (i : Entry) (c : Cache) : Cache :=
  let token := c.lastToken + 1
  { c with items := c.items.insert k { i with data, token }, lastToken := token }

theorem getElem?_update (k a : Key) (data : Bytes) (i : Entry) (c : Cache) :
    (c.update k data i).items[a]? =
      if k = a then some { i with data, token := c.lastToken + 1 } else c.items[a]? :=
  KeyMap.getElem?_insert ..

/-! ## Reading -/

/-- Read the item of a key, and count the hit or miss. -/
def fetch (now : Nat) (withToken : Bool) (k : Key) (c : Cache) : Option Item × Cache :=
  let c := c.touch now k
  match c.items[k]? with
  | some i =>
    (some ⟨i.data, i.flags, if withToken then some i.token else none⟩,
      { c with hits := c.hits + 1 })
  | none => (none, { c with misses := c.misses + 1 })

/-- Read the items of several keys, on top of those found so far. -/
def fetchAll (now : Nat) (withToken : Bool) (found : KeyMap Item) (c : Cache) :
    List Key → KeyMap Item × Cache
  | [] => (found, c)
  | k :: keys =>
    match c.fetch now withToken k with
    | (some item, c) => fetchAll now withToken (found.insert k item) c keys
    | (none, c) => fetchAll now withToken found c keys

/-! ## Storing -/

/-- Carry out a store. -/
def store (now : Nat) (mode : StoreMode) (k : Key) (data : Bytes) (ttl flags : UInt32)
    (c : Cache) : StoreOutcome × Cache :=
  let c := { c with stores := c.stores + 1 }.touch now k
  match mode, c.items[k]? with
  | .set, _ => (.stored, c.put now k data ttl flags)
  | .add, none => (.stored, c.put now k data ttl flags)
  | .add, some _ => (.notStored, c)
  | .replace, none => (.notStored, c)
  | .replace, some _ => (.stored, c.put now k data ttl flags)
  | .append, some i => (.stored, c.update k (i.data ++ data) i)
  | .prepend, some i => (.stored, c.update k (data ++ i.data) i)
  | .append, none | .prepend, none => (.notStored, { c with lastToken := c.lastToken + 1 })

/-- Store in place of an item that still has a token. -/
def compareAndSet (now : Nat) (k : Key) (data : Bytes) (token : Token) (ttl flags : UInt32)
    (c : Cache) : StoreOutcome × Cache :=
  let c := { c with stores := c.stores + 1 }.touch now k
  match c.items[k]? with
  | none => (.notFound, c)
  | some i => if i.token = token then (.stored, c.put now k data ttl flags) else (.exists, c)

/-! ## Counters -/

/-- The number that a payload shows, blanks around it dropped. -/
def counter? (data : Bytes) : Option UInt64 :=
  match Utf8.decode? data with
  | none => none
  | some text =>
    match Decimal.readUInt64 (Text.trim Text.isBlank text) with
    | .ok n => some n
    | .error _ => none

/-- The payload that shows a number. -/
def showCounter (n : UInt64) : Bytes := Utf8.encode (Decimal.natural n.toNat)

/-- What is said to an attempt to count where there is no number. -/
def notANumber : String := "cannot increment or decrement non-numeric value"

/-- Change a counter. -/
def count (now : Nat) (change : UInt64 → UInt64) (k : Key) (c : Cache) : Response × Cache :=
  let c := c.touch now k
  match c.items[k]? with
  | none => (.counter none, c)
  | some i =>
    match counter? i.data with
    | none => (.error notANumber, c)
    | some n => (.counter (some (change n)), c.update k (showCounter (change n)) i)

/-- Subtract, stopping at zero. -/
def lower (amount n : UInt64) : UInt64 := if n ≤ amount then 0 else n - amount

/-! ## The rest -/

/-- Remove the item of a key. -/
def delete (now : Nat) (k : Key) (c : Cache) : Bool × Cache :=
  let c := c.touch now k
  match c.items[k]? with
  | some _ => (true, { c with items := c.items.erase k })
  | none => (false, c)

/-- What the cache has counted. Items past their deadline are among the items until they go. -/
def stats (c : Cache) : List (String × String) :=
  [("version", c.version), ("curr_items", toString c.items.size),
    ("total_connections", toString c.connections), ("cmd_get", toString (c.hits + c.misses)),
    ("cmd_set", toString c.stores), ("get_hits", toString c.hits),
    ("get_misses", toString c.misses)]

/-- Carry out a command at a time. -/
def apply (now : Nat) (command : Command) (c : Cache) : Response × Cache :=
  match command with
  | .get k => let (item, c) := c.fetch now false k; (.item item, c)
  | .gets k => let (item, c) := c.fetch now true k; (.item item, c)
  | .getMulti keys => let (items, c) := c.fetchAll now false ∅ keys; (.items items, c)
  | .getsMulti keys => let (items, c) := c.fetchAll now true ∅ keys; (.items items, c)
  | .store mode k data ttl flags =>
    let (status, c) := c.store now mode k data ttl flags; (.store status, c)
  | .cas k data token ttl flags =>
    let (status, c) := c.compareAndSet now k data token ttl flags; (.store status, c)
  | .incr k amount => c.count now (· + amount) k
  | .decr k amount => c.count now (lower amount) k
  | .delete k => let (found, c) := c.delete now k; (.deleted found, c)
  | .flushAll => (.ok, { c with items := ∅ })
  | .stats => (.stats c.stats, c)
  | .version => (.version c.version, c)

end Cache

end CacheClient
