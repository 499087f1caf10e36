import CacheClient.Proofs.Client.Calls
import CacheClient.Proofs.Operation.Arguments
import CacheClient.Proofs.Operation.Responses

/-!
# When a session is dropped

How an operation ends can be told from the calls that were made for it (`Fate`). Either a call
failed, or there is a response to the command.

* If a call failed, or the response has a shape that the command does not expect, the transport is
  at fault. The session is dropped, and the failure is reported as the configuration has it.
* If the server refused, its refusal is the result, and the session stays.
* In all other cases the session stays too, and the result is the answer in the response, or the
  error of an item that cannot be read. Whether failures are reported as misses does not matter.

Main result: `dropped_exactly_on_transport_failure`.
-/

namespace CacheClient

open Log

/-! ## Responses in a log -/

/-- The session with the number `n` has responded to the command. -/
def Log.Responded (calls : List Observation) (command : Command) (n : Nat) (response : Response) :
    Prop :=
  ⟨n, .execute command, .responded response⟩ ∈ calls

section

variable {xs ys : List Observation} {command : Command} {n : Nat} {response : Response}

theorem Log.responded_append :
    Responded (xs ++ ys) command n response ↔
      Responded xs command n response ∨ Responded ys command n response :=
  List.mem_append

theorem Log.not_responded (h : executes xs = []) : ¬Responded xs command n response := by
  intro hmem
  have hnone := List.filterMap_eq_nil_iff.1 h _ hmem
  cases hnone

end

namespace Connection.Executed

variable {τ : Type} {c c' : Connection (Nat × τ)} {n : Nat} {command : Command}
  {calls : List Observation}

theorem not_responded {e : IoError} (h : Executed c n command calls (.error e) c') (m : Nat)
    (response : Response) : ¬Responded calls command m response := by
  cases h with
  | unready h => exact Log.not_responded h.executes_eq
  | failed h hs e =>
    rw [responded_append, not_or]
    exact ⟨Log.not_responded h.executes_eq, by simp [Responded]⟩

theorem responded_iff {response : Response} (h : Executed c n command calls (.ok response) c') :
    ∃ s, c'.session = some s ∧
      ∀ m r, Responded calls command m r ↔ m = s.1 ∧ r = response := by
  cases h with
  | @answered xs _ s h hs response =>
    refine ⟨s, hs, fun m r => ?_⟩
    rw [responded_append, or_iff_right (Log.not_responded h.executes_eq)]
    simp [Responded]

end Connection.Executed

/-! ## How operations end -/

namespace Client

variable {σ τ : Type} {op : Operation} {command : Command} {c c' : Client (Nat × τ)}
  {calls : List Observation} {result : Except Error op.Answer}

/-- No session is held, and no tokens have changed. -/
structure Dropped (c c' : Client (Nat × τ)) : Prop where
  state : c'.connection.state = .disconnected
  session : c'.connection.session = none
  tokens : c'.tokens = c.tokens

/-- The session with the number `n` is held. -/
def Holds (c : Client (Nat × τ)) (n : Nat) : Prop :=
  c.connection.state = .connected ∧ ∃ s, c.connection.session = some (n, s)

/-- What becomes of a command and its session, going by the calls that were made for it. -/
structure Fate (op : Operation) (command : Command) (c : Client (Nat × τ))
    (calls : List Observation) (result : Except Error op.Answer) (c' : Client (Nat × τ)) :
    Prop where
  /-- Some call failed, or there is a response. -/
  decided : (∃ e, e ∈ failures calls) ∨ ∃ n response, Responded calls command n response
  /-- The failure of a call drops the session. -/
  failed : ∀ e ∈ failures calls, Dropped c c' ∧ result = reported c.config op (.io e)
  /-- So does a response of the wrong shape. -/
  misshapen : ∀ n response, Responded calls command n response →
    command.expects response = false → (∀ text, response ≠ .error text) →
      Dropped c c' ∧ result = reported c.config op (.unexpectedResponse command.verb)
  /-- A refusal leaves the session as it is, and is always reported. -/
  refused : ∀ n text, Responded calls command n (.error text) →
    Holds c' n ∧ result = .error (.server text)
  /-- So does a response of the right shape. The result is what is in it, or the error of an item in
  it that cannot be read. -/
  answered : ∀ n response, Responded calls command n response → command.expects response →
    Holds c' n ∧ op.answer? response = some result ∧ Item.Read response.payloads result ∧
      ∀ e, result = .error e → (∃ cause, e = .type cause) ∨ ∃ cause, e = .compression cause

theorem Fate.of_failure {e : IoError} (hfail : failures calls = [e])
    (hno : ∀ n response, ¬Responded calls command n response)
    (h : Dropped c c' ∧ result = reported c.config op (.io e)) :
    Fate op command c calls result c' where
  decided := .inl ⟨e, by simp [hfail]⟩
  failed e' he := by
    rw [hfail, List.mem_singleton] at he
    rwa [he]
  misshapen n response hresponse := absurd hresponse (hno n response)
  refused n text hresponse := absurd hresponse (hno n _)
  answered n response hresponse := absurd hresponse (hno n response)

/-- If there is one response, only its own case has to be considered. -/
theorem Fate.of_response {n : Nat} {response : Response} (hfail : failures calls = [])
    (hiff : ∀ m r, Responded calls command m r ↔ m = n ∧ r = response)
    (hmisshapen : command.expects response = false → (∀ text, response ≠ .error text) →
      Dropped c c' ∧ result = reported c.config op (.unexpectedResponse command.verb))
    (hrefused : ∀ text, response = .error text → Holds c' n ∧ result = .error (.server text))
    (hanswered : command.expects response →
      Holds c' n ∧ op.answer? response = some result ∧ Item.Read response.payloads result ∧
        ∀ e, result = .error e → (∃ cause, e = .type cause) ∨ ∃ cause, e = .compression cause) :
    Fate op command c calls result c' where
  decided := .inr ⟨n, response, (hiff n response).2 ⟨rfl, rfl⟩⟩
  failed e he := by simp [hfail] at he
  misshapen m r h hshape hne := by
    obtain ⟨-, rfl⟩ := (hiff m r).1 h
    exact hmisshapen hshape hne
  refused m text h := by
    obtain ⟨rfl, htext⟩ := (hiff m _).1 h
    exact hrefused text htext.symm
  answered m r h hshape := by
    obtain ⟨rfl, rfl⟩ := (hiff m r).1 h
    exact hanswered hshape

/-- The calls and the results of the four ways to end agree. -/
theorem Sent.fate {n : Nat} (hdenotes : op.Denotes c.config c.tokens.get? command)
    (h : Sent op command c n calls result c') : Fate op command c calls result c' := by
  cases h with
  | @failed _ e connection h =>
    obtain ⟨hstate, hs⟩ := h.drops
    exact .of_failure h.failures_eq h.not_responded ⟨⟨hstate, hs, rfl⟩, rfl⟩
  | @misshapen xs response connection s h hs hshape hrefused =>
    obtain ⟨s', -, hiff⟩ := h.responded_iff
    have hfail : failures (xs ++ [⟨s.1, .close, .done⟩]) = [] := by
      rw [failures_append, h.failures_eq]
      rfl
    have hexpects : command.expects response = false := by
      rw [← hdenotes.isSome_answer?, hshape]
      rfl
    have hclosed : ∀ m r,
        Responded (xs ++ [⟨s.1, .close, .done⟩]) command m r ↔ m = s'.1 ∧ r = response := by
      intro m r
      rw [responded_append, ← hiff]
      simp [Responded]
    refine .of_response hfail hclosed ?_ ?_ ?_
    · exact fun _ _ => ⟨⟨rfl, rfl, rfl⟩, rfl⟩
    · exact fun text htext => absurd htext (hrefused text)
    · intro h
      rw [hexpects] at h
      cases h
  | @refused _ text connection h =>
    obtain ⟨s, hs, hiff⟩ := h.responded_iff
    have hexpects : command.expects (.error text) = false := by
      rw [← hdenotes.isSome_answer?, Operation.answer?_error]
      rfl
    refine .of_response h.failures_eq hiff ?_ ?_ ?_
    · exact fun _ hne => absurd rfl (hne text)
    · rintro _ ⟨⟩
      exact ⟨⟨h.holds.1, s.2, hs⟩, rfl⟩
    · intro h
      rw [hexpects] at h
      cases h
  | @answered _ response _ connection h ha =>
    obtain ⟨s, hs, hiff⟩ := h.responded_iff
    have hexpects : command.expects response := by
      rw [← hdenotes.isSome_answer?, ha]
      rfl
    refine .of_response h.failures_eq hiff ?_ ?_ ?_
    · intro h
      rw [hexpects] at h
      cases h
    · rintro text rfl
      cases (Operation.answer?_error op text).symm.trans ha
    · refine fun _ => ⟨⟨h.holds.1, s.2, hs⟩, ha, Operation.read_of_answer? ha, ?_⟩
      rintro e rfl
      exact Item.Read.error_cases (Operation.read_of_answer? ha)

/-- **A session is dropped exactly on failures of the transport.** Whatever the network does, an
operation whose arguments are in order, and that asks for something, ends as the calls have it that
were made for its command. -/
theorem dropped_exactly_on_transport_failure (net : Network σ τ) (op : Operation)
    (c : Client (Nat × τ)) (w : Observed σ) (hfault : op.fault? c.config = none)
    (hvoid : op.isVoid = false) :
    let out := c.perform net.recorded op w
    ∃ command calls, op.Denotes c.config c.tokens.get? command ∧
      out.2.2.log = w.log ++ calls ∧ Fate op command c calls out.1 out.2.1 := by
  obtain ⟨command, hcommand⟩ := op.exists_command hfault hvoid c.tokens.get?
  have hdenotes := Operation.denotes_of_command hcommand
  obtain ⟨calls, hsent, hext⟩ := send_spec net op command c w
  dsimp only
  rw [perform_of_command hcommand]
  exact ⟨command, calls, hdenotes, hext.log, hsent.fate hdenotes⟩

/-- The held session is dead, and the next is refused the connection. The client reports a miss. -/
theorem dropped_on_refused_connection :
    let c : Client (Nat × Unit) := .ofConfig { treatErrorsAsMiss := true }
    let c := { c with connection := c.connection.holding (7, ()) }
    let w : Observed Script :=
      { world := { isConnected := [false], connect := [.error ⟨.connectionRefused, "refused"⟩] } }
    let out := c.perform Script.network.recorded .version w
    Operation.version.fault? c.config = none ∧ Operation.version.isVoid = false ∧
      out.1 = .ok "" ∧
      ∃ command calls, Operation.version.Denotes c.config c.tokens.get? command ∧
        out.2.2.log = calls ∧ Fate .version command c calls out.1 out.2.1 := by
  intro c c' w
  refine ⟨rfl, rfl, rfl, ?_⟩
  exact dropped_exactly_on_transport_failure Script.network .version c' w rfl rfl

end Client

end CacheClient
