import CacheClient.Client
import CacheClient.Network.Recorded
import CacheClient.Proofs.Client.Calls
import CacheClient.Proofs.Operation.Arguments
import CacheClient.Proofs.Operation.Responses

/-!
# Reporting failures as misses

A client can be told to report failures of the transport as misses. This changes what its
operations return and nothing else: not one call, not one command, not a token
(`misses_change_only_results`). The results are those of a client that reports the failures, with
misses in their place (`masked`), so that no failure of the transport is left.

The proof runs both clients at once. Each function does the same for the two, up to the switch
itself and the way in which the result is shown (`Uniform`): one action (`uniform_act`), and then a
run (`uniform_run`). The reason is that no operation goes on with a miss. Once a failure is masked
the operation is over, and an error in its arguments or in the items that it read is never masked.
-/

namespace CacheClient

/-! ## Results -/

/-- The result with a miss in place of a failure of the transport. -/
def Operation.masked (op : Operation) : Except Error op.Answer → Except Error op.Answer
  | .ok answer => .ok answer
  | .error e => if e.isTransport then .ok op.miss else .error e

namespace Client.Action

/-- Operations have misses. What else a client can be told has none. -/
def masked : (a : Action) → a.Result → a.Result
  | .perform op, result => op.masked result
  | .connect _, result => result
  | .close, result => result
  | .isConnected, result => result
  | .setRemembering _, result => result
  | .resetTokens, result => result

end Client.Action

namespace Operation

variable {op : Operation}

theorem masked_error {e : Error} (h : e.isTransport = false) :
    op.masked (.error e) = .error e := by
  rw [masked, h]
  rfl

theorem isTransport_of_masked {result : Except Error op.Answer} {e : Error}
    (h : op.masked result = .error e) : e.isTransport = false := by
  cases result with
  | ok answer => cases h
  | error e' =>
    rw [masked] at h
    split at h
    · cases h
    · next hno =>
      cases h
      exact Bool.eq_false_iff.2 hno

theorem masked_of_answer? {response : Response} {answer : Except Error op.Answer}
    (h : op.answer? response = some answer) : op.masked answer = answer := by
  cases answer with
  | ok answer => rfl
  | error e =>
    rcases Item.Read.error_cases (read_of_answer? h) with ⟨_, rfl⟩ | ⟨_, rfl⟩ <;>
      exact masked_error rfl

/-- A result that is settled by the response is not masked. -/
theorem masked_of_verdict {command : Command} {r : Except IoError Response}
    {result : Except Error op.Answer} {seen : List (Key × Token)}
    (h : op.verdict command r = .inr (result, seen)) : op.masked result = result := by
  cases r with
  | error e => cases h
  | ok response =>
    cases response with
    | error text =>
      cases h
      rfl
    | _ =>
      simp only [verdict] at h
      split at h
      · cases h
      · next answer hanswer =>
        cases h
        exact masked_of_answer? hanswer

end Operation

/-! ## Two clients at once -/

/-- The same configuration, with failures of the transport reported as misses or not. -/
def Config.reporting (asMiss : Bool) (config : Config) : Config :=
  { config with treatErrorsAsMiss := asMiss }

theorem Operation.keysOf_reporting (asMiss : Bool) (config : Config) (sources : List Key.Source) :
    keysOf (config.reporting asMiss) sources = keysOf config sources := by
  induction sources with
  | nil => rfl
  | cons source sources ih =>
    rw [keysOf, keysOf, ih]
    rfl

theorem Operation.command_reporting (asMiss : Bool) (config : Config)
    (token? : Key → Option Token) (op : Operation) :
    op.command (config.reporting asMiss) token? = op.command config token? := by
  cases op with
  | getMulti sources | getsMulti sources =>
    rw [command, command, keysOf_reporting]
  | _ => rfl

namespace Client

variable {σ τ : Type}

def reporting (asMiss : Bool) (c : Client τ) : Client τ :=
  { c with config := c.config.reporting asMiss }

/-- Whichever way failures are reported, the same becomes of the client and of the world. The
results differ by the misses alone. -/
def Uniform {α : Type} (mask : α → α) (act : Client τ → σ → α × Client τ × σ) : Prop :=
  ∀ (c : Client τ) (w : σ), ∃ (result : α) (c' : Client τ) (w' : σ), ∀ asMiss,
    act (c.reporting asMiss) w = (if asMiss then mask result else result, c'.reporting asMiss, w')

theorem uniform_fail (net : Network σ τ) (op : Operation) {e : Error} (he : e.isTransport) :
    Uniform op.masked (fail net op e) := by
  intro c w
  refine ⟨.error e, (c.close net w).1, (c.close net w).2, fun asMiss => ?_⟩
  rw [Operation.masked, if_pos he]
  cases asMiss <;> rfl

theorem uniform_send (net : Network σ τ) (op : Operation) (command : Command) :
    Uniform op.masked (send net op command) := by
  intro c w
  rcases hexec : c.connection.execute net command w with ⟨r, connection, v⟩
  -- Executing the command does not involve the switch.
  have hboth : ∀ asMiss, (c.reporting asMiss).connection.execute net command w =
      (r, connection, v) := fun _ => hexec
  cases hverdict : op.verdict command r with
  | inl e =>
    have he := Operation.isTransport_of_verdict hverdict
    obtain ⟨result, c', w', h⟩ := uniform_fail net op he { c with connection } v
    refine ⟨result, c', w', fun asMiss => ?_⟩
    rw [← h, send_of_verdict (hboth asMiss), hverdict]
    rfl
  | inr told =>
    obtain ⟨result, seen⟩ := told
    have hmasked := Operation.masked_of_verdict hverdict
    refine ⟨result, { c with connection, tokens := c.tokens.rememberAll seen }, v,
      fun asMiss => ?_⟩
    rw [send_of_verdict (hboth asMiss), hverdict, hmasked, ite_self]
    rfl

theorem uniform_perform (net : Network σ τ) (op : Operation) :
    Uniform op.masked (perform net op) := by
  intro c w
  have hcommand : ∀ asMiss, op.command (c.reporting asMiss).config
      (c.reporting asMiss).tokens.get? = op.command c.config c.tokens.get? :=
    fun asMiss => op.command_reporting asMiss c.config c.tokens.get?
  cases h : op.command c.config c.tokens.get? with
  | error e =>
    refine ⟨.error e, c, w, fun asMiss => ?_⟩
    have hno := Operation.isTransport_of_command h
    rw [perform, hcommand, h, Operation.masked_error hno, ite_self]
  | ok command? =>
    cases command? with
    | none =>
      refine ⟨.ok op.miss, c, w, fun asMiss => ?_⟩
      rw [perform, hcommand, h, Operation.masked, ite_self]
    | some command =>
      obtain ⟨result, c', w', hsend⟩ := uniform_send net op command c w
      refine ⟨result, c', w', fun asMiss => ?_⟩
      rw [← hsend, perform_of_command ((hcommand asMiss).trans h)]

/-- What cannot be masked is the same for both if the switch is not involved. -/
theorem uniform_of_unmasked {α : Type} {mask : α → α} {act : Client τ → σ → α × Client τ × σ}
    (hmask : ∀ result, mask result = result)
    (h : ∀ (c : Client τ) (w : σ) asMiss, act (c.reporting asMiss) w =
      ((act c w).1, (act c w).2.1.reporting asMiss, (act c w).2.2)) : Uniform mask act := by
  intro c w
  refine ⟨(act c w).1, (act c w).2.1, (act c w).2.2, fun asMiss => ?_⟩
  rw [h, hmask, ite_self]

theorem connect_reporting (net : Network σ τ) (reconnect : Bool) (c : Client τ) (w : σ)
    (asMiss : Bool) :
    (c.reporting asMiss).connect net reconnect w = ((c.connect net reconnect w).1,
      (c.connect net reconnect w).2.1.reporting asMiss, (c.connect net reconnect w).2.2) := by
  have hconnection : (c.reporting asMiss).connection = c.connection := rfl
  rw [connect, connect, hconnection]
  generalize c.connection.connect net reconnect w = out
  obtain ⟨r, connection, v⟩ := out
  cases r <;> rfl

theorem uniform_act (net : Network σ τ) (a : Action) : Uniform a.masked (act net a) := by
  cases a with
  | perform op => exact uniform_perform net op
  | connect reconnect =>
    exact uniform_of_unmasked (fun _ => rfl) (connect_reporting net reconnect)
  | close | isConnected | setRemembering on | resetTokens =>
    exact uniform_of_unmasked (fun _ => rfl) fun c w asMiss => rfl

/-- The entry of a history with a miss in place of a failure of the transport. -/
def Action.maskedEntry (entry : Σ a : Action, a.Result) : Σ a : Action, a.Result :=
  ⟨entry.1, entry.1.masked entry.2⟩

theorem uniform_run (net : Network σ τ) (actions : List Action) :
    Uniform (List.map Action.maskedEntry) (run net actions) := by
  intro c w
  induction actions generalizing c w with
  | nil => exact ⟨[], c, w, fun asMiss => by cases asMiss <;> rfl⟩
  | cons a actions ih =>
    obtain ⟨result, c', w', hact⟩ := uniform_act net a c w
    obtain ⟨results, c'', w'', hrun⟩ := ih c' w'
    refine ⟨⟨a, result⟩ :: results, c'', w'', fun asMiss => ?_⟩
    simp only [run, hact, hrun]
    cases asMiss <;> rfl

/-- **Reporting misses changes only what is returned.** Two clients that differ in the switch are
told the same, over the same network. They make the same calls, hold the same session and the same
tokens, and leave the same world. The second gives the results of the first with misses for failures
of the transport, so that none of its operations reports such a failure. What they are told is
arbitrary, so that all this holds after each action of a longer history. -/
theorem misses_change_only_results (net : Network σ τ) (config : Config) (actions : List Action)
    (w : Observed σ) :
    let off := run net.recorded actions (.ofConfig { config with treatErrorsAsMiss := false }) w
    let on := run net.recorded actions (.ofConfig { config with treatErrorsAsMiss := true }) w
    on.2.2 = off.2.2 ∧ on.2.1.connection = off.2.1.connection ∧ on.2.1.tokens = off.2.1.tokens ∧
      on.1 = off.1.map Action.maskedEntry ∧
      ∀ op e, ⟨.perform op, .error e⟩ ∈ on.1 → e.isTransport = false := by
  obtain ⟨results, c', w', h⟩ := uniform_run net.recorded actions (.ofConfig config) w
  have hoff : run net.recorded actions (.ofConfig { config with treatErrorsAsMiss := false }) w =
      (results, c'.reporting false, w') := h false
  have hon : run net.recorded actions (.ofConfig { config with treatErrorsAsMiss := true }) w =
      (results.map Action.maskedEntry, c'.reporting true, w') := h true
  dsimp only
  rw [hoff, hon]
  refine ⟨rfl, rfl, rfl, rfl, fun op e hmem => ?_⟩
  obtain ⟨⟨a, result⟩, -, heq⟩ := List.mem_map.1 hmem
  obtain ⟨rfl, hresult⟩ := Sigma.mk.inj heq
  exact Operation.isTransport_of_masked (eq_of_heq hresult)

end Client

end CacheClient
