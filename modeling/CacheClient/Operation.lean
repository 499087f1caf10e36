import CacheClient.Codec

/-!
# Operations

What an application can ask of a client. Each operation has its kind of answer
(`Operation.Answer`), and an answer that stands for "nothing there" (`Operation.miss`). An
operation becomes at most one command (`Operation.command`); the response to it either has the
shape that the operation expects, and then gives the answer, or it does not
(`Operation.answer?`).
-/

namespace CacheClient

/-- How a value is stored: its time to live in seconds, where 0 is without end, and the length
above which its payload is packed, where 0 is never. -/
structure StoreSettings where
  ttl : UInt32 := 0
  threshold : Nat := 0
deriving DecidableEq, Repr

/-- What an application can ask. -/
inductive Operation where
  | store (mode : StoreMode) (key : Key.Source) (value : Value) (options : StoreSettings)
  /-- Store if the item still has the token that was last seen. -/
  | cas (key : Key.Source) (value : Value) (options : StoreSettings)
  | get (key : Key.Source)
  /-- Like `get`, and remember the token. -/
  | gets (key : Key.Source)
  | getMulti (keys : List Key.Source)
  | getsMulti (keys : List Key.Source)
  | incr (key : Key.Source) (amount : UInt64)
  | decr (key : Key.Source) (amount : UInt64)
  | delete (key : Key.Source)
  | flushAll
  | stats
  | version

namespace Operation

/-- What an operation answers. -/
@[reducible] def Answer : Operation → Type
  | .store .. | .cas .. | .delete _ => Bool
  | .get _ | .gets _ => Option Value
  | .getMulti _ | .getsMulti _ => KeyMap Value
  | .incr .. | .decr .. => Option UInt64
  | .flushAll => Unit
  | .stats => List (String × String)
  | .version => String

/-- The answer that nothing is there, or nothing was done. -/
def miss : (op : Operation) → op.Answer
  | .store .. | .cas .. | .delete _ => false
  | .get _ | .gets _ => none
  | .getMulti _ | .getsMulti _ => ∅
  | .incr .. | .decr .. => none
  | .flushAll => ()
  | .stats => []
  | .version => ""

/-! ## Commands -/

/-- The key of a source, under the limit of a client. -/
def keyOf (config : Config) (source : Key.Source) : Except Error Key :=
  match Key.validate config.maxKeyLength source with
  | .ok k => .ok k
  | .error e => .error (.key e)

/-- The keys of several sources, or the error of the first that has none. -/
def keysOf (config : Config) : List Key.Source → Except Error (List Key)
  | [] => .ok []
  | source :: sources => do
    let k ← keyOf config source
    return k :: (← keysOf config sources)

/-- The stored form of a value, under the limits of a client. -/
def encodedOf (config : Config) (v : Value) (options : StoreSettings) :
    Except Error Encoded :=
  (Codec.ofConfig config).encode v options.threshold

/-- The command of an operation, given the tokens that were last seen. There is none if no key
is asked for. -/
def command (config : Config) (token? : Key → Option Token) :
    Operation → Except Error (Option Command)
  | .store mode source v options => do
    let k ← keyOf config source
    let s ← encodedOf config v options
    return some (.store mode k s.data options.ttl s.flags.bits)
  | .cas source v options => do
    let k ← keyOf config source
    let s ← encodedOf config v options
    return some (match token? k with
      | some token => .cas k s.data token options.ttl s.flags.bits
      | none => .store .set k s.data options.ttl s.flags.bits)
  | .get source => return some (.get (← keyOf config source))
  | .gets source => return some (.gets (← keyOf config source))
  | .getMulti sources => do
    let keys ← keysOf config sources
    return if keys.isEmpty then none else some (.getMulti keys)
  | .getsMulti sources => do
    let keys ← keysOf config sources
    return if keys.isEmpty then none else some (.getsMulti keys)
  | .incr source amount => return some (.incr (← keyOf config source) amount)
  | .decr source amount => return some (.decr (← keyOf config source) amount)
  | .delete source => return some (.delete (← keyOf config source))
  | .flushAll => return some .flushAll
  | .stats => return some .stats
  | .version => return some .version

/-! ## Answers -/

/-- The value of an item. -/
def valueOf (item : Item) : Except Error Value := Codec.decode item.data item.flags

/-- The value of a single item. An item without bytes counts as none. -/
def hit? : Option Item → Except Error (Option Value)
  | none => .ok none
  | some item => if item.data.isEmpty then .ok none else (valueOf item).map some

/-- The error of a failure. -/
def errorOf? {α : Type} : Except Error α → Option Error
  | .ok _ => none
  | .error e => some e

/-- The values of several items, those without bytes included. If some cannot be read, the error of
one of them. Items come in no order of their own, so that any of them would do: it is the first in
the order of keys. -/
def hits (items : KeyMap Item) : Except Error (KeyMap Value) :=
  match items.toList.findSome? fun entry => errorOf? (valueOf entry.2) with
  | some e => .error e
  | none => .ok (items.filterMap fun _ item => (valueOf item).toOption)

/-- The answer that a response gives, if it has the shape that the operation expects. Reading
the values in it may still fail. -/
def answer? : (op : Operation) → Response → Option (Except Error op.Answer)
  | .store .., .store status => some (.ok status.isStored)
  | .cas .., .store status => some (.ok status.isStored)
  | .get _, .item item => some (hit? item)
  | .gets _, .item item => some (hit? item)
  | .getMulti _, .items items => some (hits items)
  | .getsMulti _, .items items => some (hits items)
  | .incr .., .counter n => some (.ok n)
  | .decr .., .counter n => some (.ok n)
  | .delete _, .deleted found => some (.ok found)
  | .flushAll, .ok => some (.ok ())
  | .stats, .stats table => some (.ok table)
  | .version, .version text => some (.ok text)
  | _, _ => none

end Operation

end CacheClient
