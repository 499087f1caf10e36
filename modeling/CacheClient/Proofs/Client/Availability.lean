import CacheClient.Proofs.Client
import CacheClient.Proofs.Client.Misses
import CacheClient.Proofs.Connection.Availability

/-!
# How operations end on a server in memory

Whether the transport fails for an operation can be told from the server alone, and such a failure
changes nothing on it but the number of timeouts that are ordered. A server in memory never answers
in the wrong shape, and it refuses only to count where there is no number.

Main result: `Client.ending`.
-/

namespace CacheClient

open Server

/-! ## Refusals -/

namespace Cache

variable {now : Nat} {k : Key} {c : Cache} {text : String}

theorem touch_of_live {i : Entry} (h : c.live? now k = some i) : c.touch now k = c := by
  obtain ⟨hi, hlive⟩ := live?_eq_some_iff.1 h
  rw [touch, hi]
  exact if_neg (by simp [hlive])

theorem count_of_error {change : UInt64 → UInt64} (h : (c.count now change k).1 = .error text) :
    ∃ i, c.live? now k = some i ∧ counter? i.data = none ∧ (c.count now change k).2 = c := by
  cases hi : c.live? now k with
  | none =>
    have hitem : (c.touch now k).items[k]? = none := by rw [getElem?_touch_self, hi]
    simp [count, hitem] at h
  | some i =>
    have hitem : c.items[k]? = some i := (live?_eq_some_iff.1 hi).1
    rw [count, touch_of_live hi] at h ⊢
    cases hcounter : counter? i.data with
    | none => exact ⟨i, rfl, hcounter, by simp [hitem, hcounter]⟩
    | some n => simp [hitem, hcounter] at h

/-- A cache refuses only to count where the live item shows no number, and does not change then. -/
theorem apply_of_error {command : Command} (h : (c.apply now command).1 = .error text) :
    ∃ k amount i, (command = .incr k amount ∨ command = .decr k amount) ∧
      c.live? now k = some i ∧ counter? i.data = none ∧ (c.apply now command).2 = c := by
  cases command with
  | incr k amount =>
    obtain ⟨i, hi, hcounter, hsame⟩ := count_of_error h
    exact ⟨k, amount, i, .inl rfl, hi, hcounter, hsame⟩
  | decr k amount =>
    obtain ⟨i, hi, hcounter, hsame⟩ := count_of_error h
    exact ⟨k, amount, i, .inr rfl, hi, hcounter, hsame⟩
  | _ => cases h

end Cache

/-! ## How operations end -/

theorem Operation.isTransport_of_answer? {op : Operation} {response : Response} {e : Error}
    (h : op.answer? response = some (.error e)) : e.isTransport = false := by
  rcases Item.Read.error_cases (read_of_answer? h) with ⟨_, rfl⟩ | ⟨_, rfl⟩ <;> rfl

namespace Client

/-- The failure of the transport that an operation ends in, if it does. Where the client reports a
miss instead, it is what the client would have reported. -/
def failure? (op : Operation) (c : Client SessionId) (s : Server) : Option Error :=
  match ((c.reporting false).perform Server.network op s).1 with
  | .error e => if e.isTransport then some e else none
  | .ok _ => none

/-- How an operation ends on a server in memory. -/
structure Ending (op : Operation) (c : Client SessionId) (s : Server)
    (result : Except Error op.Answer) (s' : Server) : Prop where
  /-- The transport fails if the server is down or a timeout is ordered, and only then. -/
  failure_eq : c.failure? op s =
    if s.down then some (.io ⟨.connectionRefused, "memory server is down"⟩)
    else if 0 < s.failNext then some (.io ⟨.timedOut, "injected timeout"⟩)
    else none
  /-- Such a failure is reported as such or as a miss. -/
  reported : ∀ e, c.failure? op s = some e → result = Client.reported c.config op e
  /-- It uses up a timeout, unless the server is down, and leaves everything else on the server as
  it is: items, tokens, counters and recorded commands. -/
  unharmed : ∀ e, c.failure? op s = some e →
    Quiet { s with failNext := if s.down then s.failNext else s.failNext - 1 } s'
  /-- Without it, the command is carried out, and the result is what the server says. -/
  served : c.failure? op s = none → ∃ command response,
    op.command c.config c.tokens.get? = .ok (some command) ∧ Carried s ⟨command, response⟩ s' ∧
      ((∃ text, response = .error text ∧ result = .error (.server text)) ∨
        op.answer? response = some result)
  shape : ∀ verb, result ≠ .error (.unexpectedResponse verb)
  /-- The server refuses only to count where the live item shows no number, and the cache stays as
  it is then. -/
  refused : ∀ text, result = .error (.server text) → ∃ k amount i,
    (op = .incr (.ofKey k) amount ∨ op = .decr (.ofKey k) amount) ∧
      s.cache.live? s.now k = some i ∧ Cache.counter? i.data = none ∧
      ∃ connections, s'.cache = { s.cache with connections }

variable {op : Operation} {command : Command} {c : Client SessionId} {s : Server} {e : IoError}

theorem perform_of_obstacle (h : op.command c.config c.tokens.get? = .ok (some command))
    (he : s.obstacle? = some e) :
    ∃ connection s', c.perform Server.network op s =
        (reported c.config op (.io e), { c with connection }, s') ∧
      Quiet { s with failNext := s.remaining } s' := by
  obtain ⟨connection, t, hexec, hquiet⟩ := Connection.execute_of_obstacle command c.connection he
  exact ⟨_, _, perform_of_failed h hexec, hquiet.trans (Connection.quiet_close connection t)⟩

theorem failure?_eq (h : op.command c.config c.tokens.get? = .ok (some command)) (s : Server) :
    c.failure? op s = s.obstacle?.map .io := by
  have hcommand : op.command (c.reporting false).config (c.reporting false).tokens.get? =
      .ok (some command) := (op.command_reporting false c.config c.tokens.get?).trans h
  cases he : s.obstacle? with
  | some e =>
    obtain ⟨connection, s', hperform, -⟩ := perform_of_obstacle hcommand he
    rw [failure?, hperform]
    rfl
  | none =>
    obtain ⟨hup, hfail⟩ := obstacle?_eq_none_iff.1 he
    obtain ⟨response, connection, s', -, hresult⟩ := perform_of_available hcommand hup hfail
    rcases hresult with ⟨text, -, hperform⟩ | ⟨answer, ha, hperform⟩
    · rw [failure?, hperform]
      rfl
    · rw [failure?, hperform]
      cases answer with
      | ok answer => rfl
      | error e => simp [Operation.isTransport_of_answer? ha]

/-- The key of a command to count is the one that the operation names. -/
theorem counts_of_command (h : op.command c.config c.tokens.get? = .ok (some command)) {k : Key}
    {amount : UInt64} (hcounts : command = .incr k amount ∨ command = .decr k amount) :
    op = .incr (.ofKey k) amount ∨ op = .decr (.ofKey k) amount := by
  rcases hcounts with rfl | rfl
  · cases Operation.denotes_of_command h with
    | incr hk amount => exact .inl (by rw [Operation.eq_ofKey_of_keyOf_eq_ok hk])
  · cases Operation.denotes_of_command h with
    | decr hk amount => exact .inr (by rw [Operation.eq_ofKey_of_keyOf_eq_ok hk])

theorem failure?_eq_ite (h : op.command c.config c.tokens.get? = .ok (some command)) (s : Server) :
    c.failure? op s =
      if s.down then some (.io refusal) else if 0 < s.failNext then some (.io timeout)
      else none := by
  rw [failure?_eq h, obstacle?]
  split
  · rfl
  · split <;> rfl

theorem eq_io_of_reported {config : Config} {e' : Error}
    (h : reported config op (.io e) = .error e') : e' = .io e := by
  rw [reported] at h
  split at h <;> cases h
  rfl

theorem ending_of_obstacle (h : op.command c.config c.tokens.get? = .ok (some command))
    (he : s.obstacle? = some e) :
    Ending op c s (c.perform Server.network op s).1 (c.perform Server.network op s).2.2 := by
  obtain ⟨connection, s', hperform, hquiet⟩ := perform_of_obstacle h he
  have hfailure : c.failure? op s = some (.io e) := by
    rw [failure?_eq h, he]
    rfl
  rw [hperform]
  refine ⟨failure?_eq_ite h s, ?_, fun _ _ => hquiet, ?_, ?_, ?_⟩
  · intro e' he'
    cases hfailure.symm.trans he'
    rfl
  · intro hnone
    cases hfailure.symm.trans hnone
  · intro verb hresult
    cases eq_io_of_reported hresult
  · intro text hresult
    cases eq_io_of_reported hresult

theorem ending_of_available (h : op.command c.config c.tokens.get? = .ok (some command))
    (he : s.obstacle? = none) :
    Ending op c s (c.perform Server.network op s).1 (c.perform Server.network op s).2.2 := by
  obtain ⟨hup, hfail⟩ := obstacle?_eq_none_iff.1 he
  obtain ⟨response, connection, s', hcarried, hresult⟩ := perform_of_available h hup hfail
  have hfailure : c.failure? op s = none := by
    rw [failure?_eq h, he]
    rfl
  have hsome : ∀ e, c.failure? op s ≠ some e := by simp [hfailure]
  rcases hresult with ⟨text, rfl, hperform⟩ | ⟨answer, ha, hperform⟩
  · rw [hperform]
    refine ⟨failure?_eq_ite h s, fun e he => absurd he (hsome e), fun e he => absurd he (hsome e),
      fun _ => ⟨command, _, h, hcarried, .inl ⟨text, rfl, rfl⟩⟩, by simp, ?_⟩
    intro _ _
    obtain ⟨_, ⟨connections, _, _, rfl⟩, hresponse, rfl⟩ := hcarried
    obtain ⟨k, amount, i, hcounts, hi, hcounter, hsame⟩ := Cache.apply_of_error hresponse.symm
    exact ⟨k, amount, i, counts_of_command h hcounts, hi, hcounter, connections, hsame⟩
  · rw [hperform]
    refine ⟨failure?_eq_ite h s, fun e he => absurd he (hsome e), fun e he => absurd he (hsome e),
      fun _ => ⟨command, response, h, hcarried, .inr ha⟩, ?_, ?_⟩
    · rintro verb rfl
      cases Operation.isTransport_of_answer? ha
    · rintro text rfl
      rcases Item.Read.error_cases (Operation.read_of_answer? ha) with ⟨_, heq⟩ | ⟨_, heq⟩ <;>
        cases heq

/-- An operation that is neither refused nor void ends in this way. -/
theorem ending (hfault : op.fault? c.config = none) (hvoid : op.isVoid = false) (s : Server) :
    Ending op c s (c.perform Server.network op s).1 (c.perform Server.network op s).2.2 := by
  obtain ⟨command, h⟩ := op.exists_command hfault hvoid c.tokens.get?
  cases he : s.obstacle? with
  | some e => exact ending_of_obstacle h he
  | none => exact ending_of_available h he

end Client

end CacheClient
