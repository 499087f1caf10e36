import CacheClient.Error

/-!
# Networks

The boundary between a client and whatever carries its commands. A network is described by what
its calls do to a world of states `σ`; an open session is known to the client by a handle of
type `τ` and nothing else. Each call may change the world, also when it fails.

A session is opened without effect on the server, then connected. A session may be closed more
than once.
-/

namespace CacheClient

/-- A call that gives a result or fails, and changes the world either way. -/
abbrev Attempt (σ α : Type) := σ → Except IoError α × σ

/-- One call and, if it succeeds, another. -/
def Attempt.andThen {σ α : Type} (first : Attempt σ Unit) (second : Attempt σ α) :
    Attempt σ α := fun w =>
  match first w with
  | (.ok (), w) => second w
  | (.error e, w) => (.error e, w)

/-- What can be done with sessions. -/
structure Network (σ τ : Type) where
  /-- A new session for an address, not yet connected. -/
  openSession : String → Attempt σ τ
  /-- The longest wait for an answer from now on, if there is one. -/
  setTimeout : τ → Option Nat → Attempt σ Unit
  /-- Whether small packets are sent without delay from now on. -/
  setNodelay : τ → Bool → Attempt σ Unit
  connect : τ → Attempt σ Unit
  close : τ → σ → σ
  isConnected : τ → σ → Bool × σ
  execute : τ → Command → Attempt σ Response

/-- A call to a network. -/
inductive Call where
  | openSession (address : String)
  | setTimeout (wait : Option Nat)
  | setNodelay (on : Bool)
  | connect
  | close
  | isConnected
  | execute (command : Command)
deriving DecidableEq

/-! ## Networks from a script

A network whose answers are written down beforehand: for each kind of call a list, of which each call
takes the next entry, whichever session it is made on. Where a list has ended, calls succeed,
sessions are alive, and commands are answered with `ok`. -/

/-- The answers still to be given. -/
structure Script where
  openSession : List (Except IoError Unit) := []
  setTimeout : List (Except IoError Unit) := []
  setNodelay : List (Except IoError Unit) := []
  connect : List (Except IoError Unit) := []
  isConnected : List Bool := []
  execute : List (Except IoError Response) := []

namespace Script

/-- The next entry of a list, and the entries after it. -/
def next {α : Type} (fallback : α) : List α → α × List α
  | [] => (fallback, [])
  | x :: rest => (x, rest)

/-- The network that follows a script. -/
def network : Network Script Unit where
  openSession _ := fun s =>
    let (r, rest) := next (.ok ()) s.openSession; (r, { s with openSession := rest })
  setTimeout _ _ := fun s =>
    let (r, rest) := next (.ok ()) s.setTimeout; (r, { s with setTimeout := rest })
  setNodelay _ _ := fun s =>
    let (r, rest) := next (.ok ()) s.setNodelay; (r, { s with setNodelay := rest })
  connect _ := fun s =>
    let (r, rest) := next (.ok ()) s.connect; (r, { s with connect := rest })
  close _ := fun s => s
  isConnected _ := fun s =>
    let (r, rest) := next true s.isConnected; (r, { s with isConnected := rest })
  execute _ _ := fun s =>
    let (r, rest) := next (.ok .ok) s.execute; (r, { s with execute := rest })

end Script

end CacheClient
