import CacheClient.Config
import CacheClient.Network

/-!
# Connections

A connection holds at most one session and opens it when it is needed.

**Connecting.** A fresh session gets the timeout of the connecting phase, is connected, and gets
its lasting timeout and, if asked for, the setting that small packets are not delayed. If any of
this fails, the session is closed and not held. A session that was held before is closed first.

**Using.** Before each command the held session is asked whether it is still connected. One that
is not is given up without being closed, and another is connected in its place. A session on
which a command fails is closed.

Whether a connection counts as connected is noted apart from the session that it holds. The two
go together after every call.
-/

namespace CacheClient

/-- How sessions are set up. -/
structure SessionPlan where
  address : String
  connectTimeout : Option Nat
  timeout : Option Nat
  nodelay : Bool
deriving DecidableEq, Repr

/-- The plan of a configuration. -/
def SessionPlan.ofConfig (c : Config) : SessionPlan :=
  ⟨c.address, c.connectTimeout, c.timeout, c.nodelay⟩

/-- What a connection counts as. -/
inductive ConnectionState where
  | disconnected
  | connected
deriving DecidableEq, Repr

/-- A plan, what the connection counts as, and the session that is held, if any. -/
structure Connection (τ : Type) where
  plan : SessionPlan
  state : ConnectionState := .disconnected
  session : Option τ := none

namespace Connection

variable {σ τ : Type}

/-- A connection without a session. -/
def ofConfig (c : Config) : Connection τ := { plan := .ofConfig c }

/-- Whether the connection counts as connected. Its session is not asked. -/
def connected (c : Connection τ) : Bool := c.state == .connected

/-- Hold no session any more. -/
def without (c : Connection τ) : Connection τ :=
  { c with state := .disconnected, session := none }

/-- Hold a session that is connected. -/
def holding (s : τ) (c : Connection τ) : Connection τ :=
  { c with state := .connected, session := some s }

/-- Set up and connect a fresh session. -/
def handshake (net : Network σ τ) (plan : SessionPlan) (s : τ) : Attempt σ Unit :=
  (net.setTimeout s plan.connectTimeout).andThen <|
  (net.connect s).andThen <|
  (net.setTimeout s plan.timeout).andThen <|
  if plan.nodelay then net.setNodelay s true else fun w => (.ok (), w)

/-- Close the session, if one is held. -/
def close (net : Network σ τ) (c : Connection τ) (w : σ) : Connection τ × σ :=
  match c.session with
  | some s => (c.without, net.close s w)
  | none => (c.without, w)

/-- Connect a new session. -/
def renew (net : Network σ τ) (c : Connection τ) (w : σ) :
    Except IoError Unit × Connection τ × σ :=
  let (c, w) := c.close net w
  match net.openSession c.plan.address w with
  | (.error e, w) => (.error e, c, w)
  | (.ok s, w) =>
    match handshake net c.plan s w with
    | (.ok (), w) => (.ok (), c.holding s, w)
    | (.error e, w) => (.error e, c, net.close s w)

/-- Connect, unless the connection counts as connected and need not be renewed. -/
def connect (net : Network σ τ) (reconnect : Bool) (c : Connection τ) (w : σ) :
    Except IoError Unit × Connection τ × σ :=
  if c.connected && !reconnect then (.ok (), c, w) else c.renew net w

/-- Ask whether the held session is still connected, and give it up if it is not. The answer is
the session if it is. -/
def probe (net : Network σ τ) (c : Connection τ) (w : σ) : Option τ × Connection τ × σ :=
  match c.state, c.session with
  | .disconnected, _ => (none, c, w)
  | .connected, none => (none, c.without, w)
  | .connected, some s =>
    match net.isConnected s w with
    | (true, w) => (some s, c, w)
    | (false, w) => (none, c.without, w)

/-- Connect, unless the held session is still connected. -/
def ensureConnected (net : Network σ τ) (c : Connection τ) (w : σ) :
    Except IoError Unit × Connection τ × σ :=
  match c.probe net w with
  | (some _, c, w) => (.ok (), c, w)
  | (none, c, w) => c.connect net false w

/-- Carry out a command. -/
def execute (net : Network σ τ) (command : Command) (c : Connection τ) (w : σ) :
    Except IoError Response × Connection τ × σ :=
  match c.ensureConnected net w with
  | (.error e, c, w) => (.error e, c, w)
  | (.ok (), c, w) =>
    match c.session with
    | none => (.error ⟨.notConnected, "no transport after connect"⟩, c, w)
    | some s =>
      match net.execute s command w with
      | (.ok response, w) => (.ok response, c, w)
      | (.error e, w) =>
        let (c, w) := c.close net w
        (.error e, c, w)

/-! ## Histories

The calls on a connection, as data, so that a history of a connection is a list. -/

/-- Something a connection can be told. -/
inductive Action where
  | connect (reconnect : Bool)
  /-- Disconnecting is another name for it. -/
  | close
  | isConnected
  | ensureConnected
  | execute (command : Command)

/-- What an action gives back. -/
@[reducible] def Action.Result : Action → Type
  | .connect _ | .ensureConnected => Except IoError Unit
  | .close => Unit
  | .isConnected => Bool
  | .execute _ => Except IoError Response

/-- Carry out an action. -/
def act (net : Network σ τ) : (a : Action) → Connection τ → σ → a.Result × Connection τ × σ
  | .connect reconnect, c, w => c.connect net reconnect w
  | .close, c, w => ((), c.close net w)
  | .isConnected, c, w =>
    let (session, c, w) := c.probe net w
    (session.isSome, c, w)
  | .ensureConnected, c, w => c.ensureConnected net w
  | .execute command, c, w => c.execute net command w

/-- Carry out actions, one after the other. -/
def run (net : Network σ τ) : List Action → Connection τ → σ → Connection τ × σ
  | [], c, w => (c, w)
  | a :: actions, c, w =>
    let (_, c, w) := c.act net a w
    run net actions c w

end Connection

end CacheClient
