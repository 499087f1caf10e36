import CacheClient.Client
import CacheClient.Proofs.Connection.Calls
import CacheClient.Proofs.Operation

/-!
# The calls of a client

What carrying out an operation does to a network, call by call, and what becomes of the client
(`Sent`). The command is executed by the connection, and then there are four cases: it failed, the
response has the wrong shape, the server refused, or the response answers the operation. In the
first two the session is closed, and what is wrong is reported as the configuration has it.

All that a client goes by, once its command was executed, is whether a failure of the transport is
left to be reported or there is a result (`Operation.verdict`).
-/

namespace CacheClient

open Log

/-! ## Verdicts -/

/-- What follows for an operation once its command was executed: a failure of the transport that is
left to be reported, or the result, with the tokens that the client has seen. -/
def Operation.verdict (op : Operation) (command : Command) :
    Except IoError Response → Error ⊕ Except Error op.Answer × List (Key × Token)
  | .error e => .inl (.io e)
  | .ok (.error text) => .inr (.error (.server text), [])
  | .ok response =>
    match op.answer? response with
    | none => .inl (.unexpectedResponse command.verb)
    | some answer => .inr (answer, response.tokensFor command)

theorem Operation.isTransport_of_verdict {op : Operation} {command : Command}
    {r : Except IoError Response} {e : Error} (h : op.verdict command r = .inl e) :
    e.isTransport := by
  cases r with
  | error e =>
    cases h
    rfl
  | ok response =>
    cases response with
    | error text => cases h
    | _ =>
      simp only [verdict] at h
      split at h <;> cases h
      rfl

/-! ## Carrying out operations -/

namespace Client

variable {σ τ : Type}

/-- What an operation gives after a failure of the transport. -/
def reported (config : Config) (op : Operation) (e : Error) : Except Error op.Answer :=
  if config.treatErrorsAsMiss then .ok op.miss else .error e

/-- The command of an operation is executed, under the number `n` if a session is opened for it,
and the outcome is reported. -/
inductive Sent (op : Operation) (command : Command) (c : Client (Nat × τ)) (n : Nat) :
    List Observation → Except Error op.Answer → Client (Nat × τ) → Prop
  | failed {calls e connection}
      (h : c.connection.Executed n command calls (.error e) connection) :
      Sent op command c n calls (reported c.config op (.io e)) { c with connection }
  | misshapen {calls response connection s}
      (h : c.connection.Executed n command calls (.ok response) connection)
      (hs : connection.session = some s) (hshape : op.answer? response = none)
      (hrefused : ∀ text, response ≠ .error text) :
      Sent op command c n (calls ++ [⟨s.1, .close, .done⟩])
        (reported c.config op (.unexpectedResponse command.verb))
        { c with connection := connection.without }
  | refused {calls text connection}
      (h : c.connection.Executed n command calls (.ok (.error text)) connection) :
      Sent op command c n calls (.error (.server text)) { c with connection }
  | answered {calls response answer connection}
      (h : c.connection.Executed n command calls (.ok response) connection)
      (ha : op.answer? response = some answer) :
      Sent op command c n calls answer
        { c with connection, tokens := c.tokens.rememberAll (response.tokensFor command) }

/-- Closing after a failure, and reporting it. -/
theorem fail_spec (net : Network σ τ) (op : Operation) (e : Error) (c : Client (Nat × τ))
    (w : Observed σ) :
    ∃ w', c.fail net.recorded op e w =
        (reported c.config op e, { c with connection := c.connection.without }, w') ∧
      w.Extends c.connection.closing w' := by
  obtain ⟨hwithout, hext⟩ := Connection.close_spec net c.connection w
  refine ⟨(c.connection.close net.recorded w).2, ?_, hext⟩
  rw [← hwithout]
  rfl

section

variable {net : Network σ τ} {op : Operation} {command : Command} {response : Response}
  {c : Client τ} {w v : σ} {connection : Connection τ}

theorem perform_of_command (h : op.command c.config c.tokens.get? = .ok (some command)) :
    c.perform net op w = c.send net op command w := by
  rw [perform, h]

theorem send_of_failed {e : IoError}
    (hexec : c.connection.execute net command w = (.error e, connection, v)) :
    c.send net op command w = { c with connection }.fail net op (.io e) v := by
  rw [send, hexec]

theorem send_of_refused {text : String}
    (hexec : c.connection.execute net command w = (.ok (.error text), connection, v)) :
    c.send net op command w = (.error (.server text), { c with connection }, v) := by
  rw [send, hexec]

theorem send_of_answer {answer : Except Error op.Answer}
    (hexec : c.connection.execute net command w = (.ok response, connection, v))
    (ha : op.answer? response = some answer) :
    c.send net op command w = (answer,
      { c with connection, tokens := c.tokens.rememberAll (response.tokensFor command) }, v) := by
  rw [send, hexec]
  cases response with
  | error text => cases (Operation.answer?_error op text).symm.trans ha
  | _ => simp only [ha]

theorem send_of_misshapen
    (hexec : c.connection.execute net command w = (.ok response, connection, v))
    (hshape : op.answer? response = none) (hrefused : ∀ text, response ≠ .error text) :
    c.send net op command w =
      { c with connection }.fail net op (.unexpectedResponse command.verb) v := by
  rw [send, hexec]
  cases response with
  | error text => exact absurd rfl (hrefused text)
  | _ => simp only [hshape]

/-- What a client does once its command was executed is settled by the verdict. -/
theorem send_of_verdict {r : Except IoError Response}
    (hexec : c.connection.execute net command w = (r, connection, v)) :
    c.send net op command w =
      match op.verdict command r with
      | .inl e => { c with connection }.fail net op e v
      | .inr (result, seen) =>
        (result, { c with connection, tokens := c.tokens.rememberAll seen }, v) := by
  rw [send, hexec]
  cases r with
  | error e => rfl
  | ok response =>
    cases response with
    | error text => rfl
    | _ =>
      dsimp only [Operation.verdict]
      generalize op.answer? _ = answer?
      cases answer? <;> rfl

end

theorem send_spec (net : Network σ τ) (op : Operation) (command : Command) (c : Client (Nat × τ))
    (w : Observed σ) :
    let out := c.send net.recorded op command w
    ∃ calls, Sent op command c w.attempts calls out.1 out.2.1 ∧ w.Extends calls out.2.2 := by
  obtain ⟨calls, h, hext⟩ := Connection.execute_spec net command c.connection w
  dsimp only
  generalize hexec : c.connection.execute net.recorded command w = out at h hext
  obtain ⟨r, connection, v⟩ := out
  dsimp only at h hext
  cases r with
  | error e =>
    obtain ⟨u, hfail, hclose⟩ := fail_spec net op (.io e) { c with connection } v
    -- The connection has dropped its session already, so that nothing is left to be closed.
    obtain ⟨hstate, hs⟩ := h.drops
    have hwithout : connection.without = connection := Connection.without_eq_self hstate hs
    have hclosing : connection.closing = [] := by simp [Connection.closing, hs]
    rw [send_of_failed hexec, hfail, hwithout]
    rw [hclosing] at hclose
    exact ⟨_, .failed h, by simpa using hext.trans hclose⟩
  | ok response =>
    cases hshape : op.answer? response with
    | some answer =>
      rw [send_of_answer hexec hshape]
      exact ⟨calls, .answered h hshape, hext⟩
    | none =>
      by_cases hrefused : ∃ text, response = .error text
      · obtain ⟨text, rfl⟩ := hrefused
        rw [send_of_refused hexec]
        exact ⟨calls, .refused h, hext⟩
      · have hrefused : ∀ text, response ≠ .error text := fun text heq => hrefused ⟨text, heq⟩
        obtain ⟨u, hfail, hclose⟩ :=
          fail_spec net op (.unexpectedResponse command.verb) { c with connection } v
        obtain ⟨-, s, hs⟩ := h.holds
        have hclosing : connection.closing = [⟨s.1, .close, .done⟩] := by
          simp [Connection.closing, hs]
        rw [send_of_misshapen hexec hshape hrefused, hfail]
        rw [hclosing] at hclose
        exact ⟨_, .misshapen h hs hshape hrefused, hext.trans hclose⟩

end Client

end CacheClient
