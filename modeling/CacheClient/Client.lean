import CacheClient.Connection
import CacheClient.Operation
import CacheClient.TokenRegistry

/-!
# Clients

A client carries out operations on one connection, one command for each.

**Failures.** What is wrong with keys or values is reported before anything is sent. A failure
of the transport, which is an I/O error or a response of the wrong shape, closes the session;
then it is reported or, if the client is configured so, replaced by the operation's answer for a
miss. An error that the server reports leaves the session as it is and is always reported, and
so is a value that cannot be read.

**Tokens.** Reads that ask for tokens leave them in the client's registry, whether the values
can be read or not. A conditional store uses the token of its key, and is a plain one without.
-/

namespace CacheClient

/-- A client of one server. -/
structure Client (τ : Type) where
  config : Config
  tokens : TokenRegistry
  connection : Connection τ

namespace Client

variable {σ τ : Type}

/-- A client that has not done anything. -/
def ofConfig (config : Config) : Client τ where
  config
  tokens := { enabled := config.rememberTokens }
  connection := .ofConfig config

/-! ## Sessions -/

/-- Whether a session is held. -/
def connected (c : Client τ) : Bool := c.connection.connected

/-- Connect, unless a session is held and need not be replaced. -/
def connect (net : Network σ τ) (reconnect : Bool) (c : Client τ) (w : σ) :
    Except Error Unit × Client τ × σ :=
  match c.connection.connect net reconnect w with
  | (.ok _, connection, w) => (.ok (), { c with connection }, w)
  | (.error e, connection, w) => (.error (.io e), { c with connection }, w)

/-- Close the session, if one is held. -/
def close (net : Network σ τ) (c : Client τ) (w : σ) : Client τ × σ :=
  let (connection, w) := c.connection.close net w
  ({ c with connection }, w)

/-- Ask whether the session is still connected, and give it up if it is not. -/
def isConnected (net : Network σ τ) (c : Client τ) (w : σ) : Bool × Client τ × σ :=
  let (session, connection, w) := c.connection.probe net w
  (session.isSome, { c with connection }, w)

/-! ## Tokens -/

/-- Remember tokens from now on, or no longer. -/
def setRemembering (on : Bool) (c : Client τ) : Client τ :=
  { c with tokens := c.tokens.setEnabled on }

/-- Forget every token. -/
def resetTokens (c : Client τ) : Client τ := { c with tokens := c.tokens.reset }

/-- The token that was last seen for a key. What is no key has none. -/
def token? (c : Client τ) (source : Key.Source) : Option Token :=
  match Key.validate 0 source with
  | .ok k => c.tokens.get? k
  | .error _ => none

/-! ## Operations -/

/-- Close the session after a failure of the transport, and report it or a miss. -/
def fail (net : Network σ τ) (op : Operation) (e : Error) (c : Client τ) (w : σ) :
    Except Error op.Answer × Client τ × σ :=
  let (c, w) := c.close net w
  (if c.config.treatErrorsAsMiss then .ok op.miss else .error e, c, w)

/-- Send the command of an operation, and take the response apart. -/
def send (net : Network σ τ) (op : Operation) (command : Command) (c : Client τ) (w : σ) :
    Except Error op.Answer × Client τ × σ :=
  match c.connection.execute net command w with
  | (.error e, connection, w) => { c with connection }.fail net op (.io e) w
  | (.ok (.error text), connection, w) => (.error (.server text), { c with connection }, w)
  | (.ok response, connection, w) =>
    match op.answer? response with
    | none => { c with connection }.fail net op (.unexpectedResponse command.verb) w
    | some answer =>
      let tokens := c.tokens.rememberAll (response.tokensFor command)
      (answer, { c with connection, tokens }, w)

/-- Carry out an operation. -/
def perform (net : Network σ τ) (op : Operation) (c : Client τ) (w : σ) :
    Except Error op.Answer × Client τ × σ :=
  match op.command c.config c.tokens.get? with
  | .error e => (.error e, c, w)
  | .ok none => (.ok op.miss, c, w)
  | .ok (some command) => c.send net op command w

/-! ## Histories

Operations and the handling of sessions and tokens, as data, so that a history of a client is a
list. -/

/-- Something a client can be told. -/
inductive Action where
  | perform (op : Operation)
  | connect (reconnect : Bool)
  | close
  | isConnected
  | setRemembering (on : Bool)
  | resetTokens

/-- What an action gives back. -/
@[reducible] def Action.Result : Action → Type
  | .perform op => Except Error op.Answer
  | .connect _ => Except Error Unit
  | .isConnected => Bool
  | .close | .setRemembering _ | .resetTokens => Unit

/-- Carry out an action. -/
def act (net : Network σ τ) : (a : Action) → Client τ → σ → a.Result × Client τ × σ
  | .perform op, c, w => c.perform net op w
  | .connect reconnect, c, w => c.connect net reconnect w
  | .close, c, w => ((), c.close net w)
  | .isConnected, c, w => c.isConnected net w
  | .setRemembering on, c, w => ((), c.setRemembering on, w)
  | .resetTokens, c, w => ((), c.resetTokens, w)

/-- Carry out actions, one after the other. -/
def run (net : Network σ τ) :
    List Action → Client τ → σ → List (Σ a : Action, a.Result) × Client τ × σ
  | [], c, w => ([], c, w)
  | a :: actions, c, w =>
    let (result, c, w) := c.act net a w
    let (results, c, w) := run net actions c w
    (⟨a, result⟩ :: results, c, w)

end Client

end CacheClient
