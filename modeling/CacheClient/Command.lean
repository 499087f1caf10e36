import CacheClient.Key

/-!
# Commands and responses

What is asked of a server, and what comes back. How the two look on a wire is the business of a
network and not said here. Keys in a command are valid, and values are encoded.
-/

namespace CacheClient

/-- The version of an item. Every change of an item gives it a new one. -/
abbrev Token := UInt64

/-! ## Commands -/

/-- When a value is stored, and what becomes of an old one. -/
inductive StoreMode where
  /-- In any case. -/
  | set
  /-- Only where there is none. -/
  | add
  /-- Only in place of another. -/
  | replace
  /-- Behind another. -/
  | append
  /-- In front of another. -/
  | prepend
deriving DecidableEq, Repr

/-- The kinds of commands. -/
inductive Verb where
  | get
  | gets
  | getMulti
  | getsMulti
  | store (mode : StoreMode)
  | cas
  | incr
  | decr
  | delete
  | flushAll
  | stats
  | version
deriving DecidableEq, Repr

namespace Verb

/-- The name of a kind of command. -/
def name : Verb → String
  | .get => "get"
  | .gets => "gets"
  | .getMulti => "get_multi"
  | .getsMulti => "gets_multi"
  | .store .set => "set"
  | .store .add => "add"
  | .store .replace => "replace"
  | .store .append => "append"
  | .store .prepend => "prepend"
  | .cas => "cas"
  | .incr => "incr"
  | .decr => "decr"
  | .delete => "delete"
  | .flushAll => "flush_all"
  | .stats => "stats"
  | .version => "version"

/-- Every kind of command. -/
def all : List Verb :=
  [.get, .gets, .getMulti, .getsMulti, .store .set, .store .add, .store .replace, .store .append,
    .store .prepend, .cas, .incr, .decr, .delete, .flushAll, .stats, .version]

/-- The kind of command with that name. -/
def ofName? (s : String) : Option Verb := all.find? fun v => v.name == s

end Verb

/-- A command. Times to live are in seconds, and 0 is without end. -/
inductive Command where
  | get (key : Key)
  /-- Like `get`, with the token. -/
  | gets (key : Key)
  | getMulti (keys : List Key)
  | getsMulti (keys : List Key)
  | store (mode : StoreMode) (key : Key) (data : Bytes) (ttl flags : UInt32)
  /-- Store only if the item still has this token. -/
  | cas (key : Key) (data : Bytes) (token : Token) (ttl flags : UInt32)
  | incr (key : Key) (amount : UInt64)
  | decr (key : Key) (amount : UInt64)
  | delete (key : Key)
  | flushAll
  | stats
  | version
deriving DecidableEq

namespace Command

/-- The kind of a command. -/
def verb : Command → Verb
  | .get _ => .get
  | .gets _ => .gets
  | .getMulti _ => .getMulti
  | .getsMulti _ => .getsMulti
  | .store mode .. => .store mode
  | .cas .. => .cas
  | .incr .. => .incr
  | .decr .. => .decr
  | .delete _ => .delete
  | .flushAll => .flushAll
  | .stats => .stats
  | .version => .version

/-- The keys that a command names, with repetitions. -/
def keys : Command → List Key
  | .get key | .gets key | .store _ key .. | .cas key .. | .incr key _ | .decr key _
  | .delete key => [key]
  | .getMulti keys | .getsMulti keys => keys
  | .flushAll | .stats | .version => []

end Command

/-! ## Responses -/

/-- An item as a read gives it. -/
structure Item where
  data : Bytes
  flags : UInt32
  token : Option Token := none
deriving DecidableEq

/-- What became of a value to be stored. -/
inductive StoreOutcome where
  | stored
  | notStored
  /-- The item has another token by now. -/
  | exists
  | notFound
deriving DecidableEq, Repr

/-- Whether the value is now on the server. -/
def StoreOutcome.isStored (s : StoreOutcome) : Bool := s == .stored

/-- The answer of a server. -/
inductive Response where
  | item (item : Option Item)
  /-- The items that were found. -/
  | items (items : KeyMap Item)
  | store (status : StoreOutcome)
  | counter (value : Option UInt64)
  | deleted (found : Bool)
  | ok
  | stats (table : List (String × String))
  | version (text : String)
  /-- The server refused. -/
  | error (message : String)
deriving DecidableEq

/-- The tokens that a response brings for the keys of a command. Only reads that ask for tokens
bring any. -/
def Response.tokensFor (r : Response) (command : Command) : List (Key × Token) :=
  match command, r with
  | .gets k, .item (some i) => i.token.toList.map fun token => (k, token)
  | .getsMulti _, .items found =>
    found.toList.filterMap fun (k, i) => i.token.map fun token => (k, token)
  | _, _ => []

end CacheClient
