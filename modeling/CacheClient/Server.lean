import CacheClient.Cache
import CacheClient.Network

/-!
# A server in memory

A cache that can be reached through sessions, with a clock that moves only when it is told to.
The server keeps a history of the calls and commands that reached it, and can be made to fail:

* while it is **down**, no session can be connected;
* going down, and **killing** connections, ends every session that is connected. The server
  counts these events in its epoch, and a session lives as long as the epoch in which it was
  connected;
* a number of **timeouts** can be ordered for the next commands.
-/

namespace CacheClient

/-- A session, and the epoch in which it was connected, if it is. -/
structure Session where
  epoch : Option Nat := none
  timeout : Option Nat := none
  nodelay : Bool := false
deriving DecidableEq, Repr

/-- The number of a session, in the order of opening. -/
abbrev SessionId := Nat

/-- The state of a server. The clock counts milliseconds. -/
structure Server where
  cache : Cache := {}
  now : Nat := 0
  down : Bool := false
  failNext : Nat := 0
  epoch : Nat := 0
  sessions : Array Session := #[]
  calls : List Call := []
  commands : List Command := []

namespace Server

/-- A fresh server that reports this version. -/
def withVersion (version : String) : Server := { cache := { version } }

/-! ## Control -/

/-- What can be done to a server from outside its sessions. -/
inductive Control where
  /-- Take the server down, or bring it up again. -/
  | setDown (down : Bool)
  /-- End every session. New ones can be connected. -/
  | killConnections
  /-- Let the next commands time out. -/
  | failNext (n : Nat)
  /-- Forget the history. -/
  | clearHistory
  /-- Let time pass, in milliseconds. -/
  | advance (ms : Nat)
deriving DecidableEq, Repr

/-- Do it. -/
def control (s : Server) : Control → Server
  | .setDown down => { s with down, epoch := if down then s.epoch + 1 else s.epoch }
  | .killConnections => { s with epoch := s.epoch + 1 }
  | .failNext n => { s with failNext := n }
  | .clearHistory => { s with calls := [], commands := [] }
  | .advance ms => { s with now := s.now + ms }

/-- The bytes and flags under a key, whether past their deadline or not. -/
def raw? (s : Server) (k : Key) : Option (Bytes × UInt32) :=
  s.cache.items[k]?.map fun i => (i.data, i.flags)

/-! ## Sessions -/

/-- The session with a number; one that was never opened is not connected. -/
def session (s : Server) (id : SessionId) : Session := s.sessions.getD id {}

/-- Change a session. -/
def modify (id : SessionId) (f : Session → Session) (s : Server) : Server :=
  { s with sessions := s.sessions.modify id f }

/-- Add a call to the history. -/
def record (call : Call) (s : Server) : Server := { s with calls := s.calls ++ [call] }

/-- The session is connected, and nothing has ended it since. -/
def isConnected (s : Server) (id : SessionId) : Bool :=
  !s.down && (s.session id).epoch == some s.epoch

/-- Open a session. -/
def openSession (address : String) (s : Server) : SessionId × Server :=
  (s.sessions.size, { s with sessions := s.sessions.push {} }.record (.openSession address))

/-- Set the timeout of a session. -/
def setTimeout (id : SessionId) (wait : Option Nat) (s : Server) : Server :=
  (s.modify id fun x => { x with timeout := wait }).record (.setTimeout wait)

/-- Set the delay of a session. -/
def setNodelay (id : SessionId) (on : Bool) (s : Server) : Server :=
  (s.modify id fun x => { x with nodelay := on }).record (.setNodelay on)

/-- Connect a session. A server that is down notices nothing of it. -/
def connect (id : SessionId) (s : Server) : Except IoError Unit × Server :=
  if s.down then (.error ⟨.connectionRefused, "memory server is down"⟩, s)
  else
    let s := s.modify id fun x => { x with epoch := some s.epoch }
    (.ok (), { s with cache.connections := s.cache.connections + 1 }.record .connect)

/-- Close a session. Only one that was connected leaves a trace. -/
def close (id : SessionId) (s : Server) : Server :=
  if (s.session id).epoch.isSome then
    (s.modify id fun x => { x with epoch := none }).record .close
  else s

/-- Carry out a command that comes through a session. -/
def execute (id : SessionId) (command : Command) (s : Server) :
    Except IoError Response × Server :=
  if !s.isConnected id then
    (.error ⟨.connectionReset, "connection reset by memory server"⟩, s)
  else if 0 < s.failNext then
    (.error ⟨.timedOut, "injected timeout"⟩, { s with failNext := s.failNext - 1 })
  else
    let (response, cache) := s.cache.apply s.now command
    (.ok response, { s with cache, commands := s.commands ++ [command] })

/-- The server as a network. -/
def network : Network Server SessionId where
  openSession address := fun s => let (id, s) := s.openSession address; (.ok id, s)
  setTimeout id wait := fun s => (.ok (), s.setTimeout id wait)
  setNodelay id on := fun s => (.ok (), s.setNodelay id on)
  connect id := fun s => s.connect id
  close id := fun s => s.close id
  isConnected id := fun s => (s.isConnected id, s)
  execute id command := fun s => s.execute id command

/-! ## Runs

Everything that can happen to a server, as data: calls on its sessions and control from outside. A
run is a list of such events, carried out one after the other. -/

/-- Something that happens to a server. -/
inductive Event where
  | openSession (address : String)
  | setTimeout (id : SessionId) (wait : Option Nat)
  | setNodelay (id : SessionId) (on : Bool)
  | connect (id : SessionId)
  | close (id : SessionId)
  | execute (id : SessionId) (command : Command)
  | control (c : Control)
deriving DecidableEq

/-- What an event gives back. -/
@[reducible] def Event.Result : Event → Type
  | .openSession _ => SessionId
  | .connect _ => Except IoError Unit
  | .execute .. => Except IoError Response
  | .setTimeout .. | .setNodelay .. | .close _ | .control _ => Unit

/-- Carry out an event. -/
def step : (e : Event) → Server → e.Result × Server
  | .openSession address, s => s.openSession address
  | .setTimeout id wait, s => ((), s.setTimeout id wait)
  | .setNodelay id on, s => ((), s.setNodelay id on)
  | .connect id, s => s.connect id
  | .close id, s => ((), s.close id)
  | .execute id command, s => s.execute id command
  | .control c, s => ((), s.control c)

/-- Carry out events, one after the other. -/
def run (events : List Event) (s : Server) : Server :=
  events.foldl (fun s e => (step e s).2) s

@[simp] theorem run_nil (s : Server) : run [] s = s := rfl

@[simp] theorem run_cons (e : Event) (events : List Event) (s : Server) :
    run (e :: events) s = run events (step e s).2 := rfl

end Server

end CacheClient
