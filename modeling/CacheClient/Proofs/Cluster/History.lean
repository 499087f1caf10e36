import CacheClient.Proofs.Cache.Writes
import CacheClient.Proofs.Cluster
import CacheClient.Proofs.Codec

/-!
# What happened in a cluster

As for a server alone, the history of a run is the list of its exchanges. An operation of a
client makes at most one, and its answer is what the exchange says (`Client.perform_cases`);
nothing else that happens in a cluster makes any. So each step of a cluster is a move of its
server (`Cluster.moves_step`), and an item that nobody disturbs goes for no other reason than
its deadline (`Cluster.lingers_run`).
-/

namespace CacheClient

open Server

/-! ## Exchanges of a client -/

namespace Client

/-- The exchange that an operation makes, if its command is carried out. -/
def exchange? (op : Operation) (c : Client SessionId) (s : Server) : Option Exchange :=
  match op.command c.config c.tokens.get? with
  | .ok (some command) =>
    (c.connection.execute Server.network command s).1.toOption.map fun r => ⟨command, r⟩
  | _ => none

/-- The exchange carried out the command of the operation, and the result is its answer or the
error that the server reports. -/
structure Answered (op : Operation) (c : Client SessionId) (s : Server) (x : Exchange)
    (result : Except Error op.Answer) (s' : Server) : Prop where
  command : op.command c.config c.tokens.get? = .ok (some x.command)
  carried : Carried s x s'
  result : (∃ text, x.response = .error text ∧ result = .error (.server text)) ∨
    op.answer? x.response = some result

theorem perform_cases (op : Operation) (c : Client SessionId) (s : Server) :
    let out := c.perform Server.network op s
    (c.exchange? op s = none ∧ Moves s none out.2.2 ∧
        ∀ answer, out.1 = .ok answer → answer = op.miss) ∨
      ∃ x, c.exchange? op s = some x ∧ Answered op c s x out.1 out.2.2 := by
  dsimp only
  cases h : op.command c.config c.tokens.get? with
  | error e =>
    rw [perform, h]
    exact .inl ⟨by simp [exchange?, h], (Quiet.refl s).moves, by simp⟩
  | ok command? =>
    cases command? with
    | none =>
      rw [perform, h]
      exact .inl ⟨by simp [exchange?, h], (Quiet.refl s).moves, by simp⟩
    | some command =>
      rcases Connection.execute_cases command c.connection s with
        ⟨e, connection, t, hexec, hfailed⟩ | ⟨response, connection, s', hexec, hcarried⟩
      · have hquiet := Connection.quiet_close connection t
        rw [perform_of_failed h hexec]
        refine .inl ⟨?_, (hfailed.trans_quiet hquiet).moves, ?_⟩
        · simp [exchange?, h, hexec, Except.toOption]
        · intro answer hanswer
          dsimp only at hanswer
          split at hanswer
          · exact (Except.ok.inj hanswer).symm
          · cases hanswer
      · refine .inr ⟨⟨command, response⟩, ?_, ?_⟩
        · simp [exchange?, h, hexec, Except.toOption]
        · rcases performed_of_carried h hexec hcarried with
            ⟨text, hresponse, hperform⟩ | ⟨answer, hanswer, hperform⟩
          · rw [hperform]
            exact ⟨h, hcarried, .inl ⟨text, hresponse, rfl⟩⟩
          · rw [hperform]
            exact ⟨h, hcarried, .inr hanswer⟩

theorem answered_of_exchange {op : Operation} {c : Client SessionId} {s : Server} {x : Exchange}
    (h : c.exchange? op s = some x) :
    Answered op c s x (c.perform Server.network op s).1 (c.perform Server.network op s).2.2 := by
  rcases perform_cases op c s with ⟨hnone, -, -⟩ | ⟨y, hy, hanswered⟩
  · rw [h] at hnone
    cases hnone
  · rw [h] at hy
    cases hy
    exact hanswered

theorem moves_perform (op : Operation) (c : Client SessionId) (s : Server) :
    Moves s (c.exchange? op s) (c.perform Server.network op s).2.2 := by
  rcases perform_cases op c s with ⟨hnone, hmoves, -⟩ | ⟨x, hx, hanswered⟩
  · rw [hnone]
    exact hmoves
  · rw [hx]
    exact hanswered.carried.moves

end Client

/-! ## Exchanges of a cluster -/

namespace Cluster

/-- The exchange that an event makes, if it gets a command carried out. -/
def exchange? : Event → Cluster → Option Exchange
  | .act i (.perform op), c => c.clients[i]?.bind fun client => client.exchange? op c.server
  | _, _ => none

/-- The exchanges of a run, in their order. -/
def history : List Event → Cluster → List Exchange
  | [], _ => []
  | e :: events, c => (exchange? e c).toList ++ history events (step e c).2

variable {c : Cluster} {e : Event} {events : List Event} {k : Key} {i : Cache.Entry}

theorem run_cons (e : Event) (events : List Event) (c : Cluster) :
    run (e :: events) c = (⟨e, (step e c).1⟩ :: (run events (step e c).2).1,
      (run events (step e c).2).2) := rfl

/-- Every step moves the server, with the exchange that it makes. -/
theorem moves_step (e : Event) (c : Cluster) :
    Moves c.server (exchange? e c) (step e c).2.server := by
  cases e with
  | control x => exact Server.moves_step (.control x) c.server
  | act j a =>
    cases hj : c.clients[j]? with
    | none =>
      have hnone : exchange? (.act j a) c = none := by cases a <;> simp [exchange?, hj]
      rw [hnone, step_act_of_none hj]
      exact (Quiet.refl c.server).moves
    | some client =>
      rw [server_step_act hj]
      cases a with
      | perform op =>
        rw [exchange?, hj]
        exact Client.moves_perform op client c.server
      | connect reconnect => exact (Client.quiet_connect reconnect client c.server).moves
      | close => exact (Connection.quiet_close client.connection c.server).moves
      | isConnected => exact (Client.quiet_isConnected client c.server).moves
      | setRemembering on => exact (Quiet.refl c.server).moves
      | resetTokens => exact (Quiet.refl c.server).moves

theorem eq_perform_of_exchange {x : Exchange} (h : exchange? e c = some x) :
    ∃ j op, e = .act j (.perform op) := by
  cases e with
  | control x => cases h
  | act j a =>
    cases a with
    | perform op => exact ⟨j, op, rfl⟩
    | _ => cases h

/-- An operation that makes an exchange is one of a client, and the exchange says its result. -/
theorem answered_of_exchange {j : Nat} {op : Operation} {x : Exchange}
    (h : exchange? (.act j (.perform op)) c = some x) :
    ∃ client result, c.clients[j]? = some client ∧ (c.perform j op).1 = some result ∧
      Client.Answered op client c.server x result (c.perform j op).2.server := by
  obtain ⟨client, hclient, hx⟩ := Option.bind_eq_some_iff.1 h
  refine ⟨client, _, hclient, result_step_act hclient (.perform op), ?_⟩
  rw [perform, server_step_act hclient]
  exact Client.answered_of_exchange hx

theorem result_of_exchange {j : Nat} {op : Operation} {x : Exchange}
    (h : exchange? (.act j (.perform op)) c = some x) {answer : Except Error op.Answer}
    (hanswer : op.answer? x.response = some answer) : (c.perform j op).1 = some answer := by
  obtain ⟨client, result, -, hperform, -, -, hresult⟩ := answered_of_exchange h
  rcases hresult with ⟨text, htext, -⟩ | hresult
  · rw [htext, Operation.answer?_error] at hanswer
    cases hanswer
  · rw [hperform, ← hanswer, hresult]

theorem exchange_of_answer {j : Nat} {op : Operation} {answer : op.Answer}
    (h : (c.perform j op).1 = some (.ok answer)) (hne : answer ≠ op.miss) :
    exchange? (.act j (.perform op)) c ≠ none := by
  cases hj : c.clients[j]? with
  | none =>
    rw [perform, step_act_of_none hj] at h
    cases h
  | some client =>
    rw [perform, result_step_act hj] at h
    rw [exchange?, hj, Option.bind_some]
    rcases Client.perform_cases op client c.server with ⟨-, -, hmiss⟩ | ⟨x, hx, -⟩
    · exact absurd (hmiss answer (Option.some.inj h)) hne
    · simp [hx]

theorem exchange_of_available {j : Nat} {op : Operation} {client : Client SessionId}
    {command : Command} (hup : c.server.down = false) (hfail : c.server.failNext = 0)
    (hj : c.clients[j]? = some client)
    (hcommand : op.command client.config client.tokens.get? = .ok (some command)) :
    exchange? (.act j (.perform op)) c ≠ none := by
  obtain ⟨response, connection, s', hexec, -⟩ :=
    Connection.execute_of_available command client.connection hup hfail
  simp [exchange?, hj, Client.exchange?, hcommand, hexec, Except.toOption]

/-- An item that nobody disturbs in a run goes for no other reason than its deadline. -/
theorem lingers_run (h : Lingers k i c.server) (hd : ∀ x ∈ history events c, ¬x.Disturbs k) :
    Lingers k i (run events c).2.server := by
  induction events generalizing c with
  | nil => exact h
  | cons e events ih =>
    rw [run_cons]
    have hhead : Lingers k i (step e c).2.server := by
      refine (moves_step e c).lingers h ?_
      intro x hx
      exact hd x (by simp [history, hx])
    refine ih hhead ?_
    intro x hx
    exact hd x (by simp [history, hx])

/-! ## Reads -/

theorem result_of_read {j : Nat} {op : Operation} {withToken : Bool}
    {answer : Except Error op.Answer}
    (hop : ∀ {config token? command}, op.Denotes config token? command →
      command.read? = some (withToken, k))
    (hanswer : op.answer? (.item ((c.server.cache.live? c.server.now k).map
      (Cache.Entry.shown withToken))) = some answer)
    (h : exchange? (.act j (.perform op)) c ≠ none) : (c.perform j op).1 = some answer := by
  obtain ⟨⟨command, response⟩, hx⟩ := Option.ne_none_iff_exists'.1 h
  obtain ⟨client, result, -, -, hcommand, hcarried, -⟩ := answered_of_exchange hx
  obtain rfl := hcarried.read (hop (Operation.denotes_of_command hcommand))
  exact result_of_exchange hx hanswer

theorem result_of_get {j : Nat} (h : exchange? (.act j (.perform (.get (.ofKey k)))) c ≠ none) :
    (c.perform j (.get (.ofKey k))).1 =
      some (Operation.hit? ((c.server.cache.live? c.server.now k).map
        (Cache.Entry.shown false))) := by
  refine result_of_read (fun hdenotes => ?_) rfl h
  cases hdenotes with
  | get hk =>
    rw [Operation.eq_of_keyOf_ofKey_eq_ok hk]
    rfl

theorem result_of_gets {j : Nat} (h : exchange? (.act j (.perform (.gets (.ofKey k)))) c ≠ none) :
    (c.perform j (.gets (.ofKey k))).1 =
      some (Operation.hit? ((c.server.cache.live? c.server.now k).map
        (Cache.Entry.shown true))) := by
  refine result_of_read (fun hdenotes => ?_) rfl h
  cases hdenotes with
  | gets hk =>
    rw [Operation.eq_of_keyOf_ofKey_eq_ok hk]
    rfl

/-! ## Values that were stored -/

/-- What an event has put in place of the item of a key, if it is an operation that does so and
reports success: the source of the key, the value and its settings. -/
def Event.stored? : (e : Event) → e.Result → Option (Key.Source × Value × StoreSettings)
  | .act _ (.perform (.store mode source v options)), some (.ok true) =>
    if mode.joins then none else some (source, v, options)
  | .act _ (.perform (.cas source v options)), some (.ok true) => some (source, v, options)
  | _, _ => none

/-- What a value is put in place as. -/
def putOf : Key.Source × Value × StoreSettings → Key.Source × Bytes × UInt32 × UInt32
  | (source, v, options) =>
    let stored := Codec.pack v options.threshold
    (source, stored.data, options.ttl, stored.flags.bits)

theorem stored?_of_miss {j : Nat} {op : Operation} {result : Except Error op.Answer}
    (h : ∀ answer, result = .ok answer → answer = op.miss) :
    Event.stored? (.act j (.perform op)) (some result) = none := by
  cases op with
  | store mode source v options =>
    cases result with
    | error e => rfl
    | ok answer =>
      rw [h answer rfl]
      rfl
  | cas source v options =>
    cases result with
    | error e => rfl
    | ok answer =>
      rw [h answer rfl]
      rfl
  | _ => rfl

theorem put?_of_answered {j : Nat} {op : Operation} {client : Client SessionId} {s s' : Server}
    {x : Exchange} {result : Except Error op.Answer}
    (h : Client.Answered op client s x result s') :
    x.put? = (Event.stored? (.act j (.perform op)) (some result)).map putOf := by
  obtain ⟨command, response⟩ := x
  obtain ⟨hcommand, -, hresult⟩ := h
  cases Operation.denotes_of_command hcommand with
  | @store mode source v options k stored hk hs =>
    obtain rfl := Operation.eq_ofKey_of_keyOf_eq_ok hk
    obtain rfl := Codec.eq_pack_of_encode_eq_ok hs
    rcases hresult with ⟨text, rfl, rfl⟩ | hanswer
    · rfl
    · obtain ⟨status, rfl, rfl⟩ := Operation.outcome_of_answer?_store hanswer
      cases status with
      | stored => cases mode <;> rfl
      | _ => rfl
  | @cas source v options k stored token hk hs htoken =>
    obtain rfl := Operation.eq_ofKey_of_keyOf_eq_ok hk
    obtain rfl := Codec.eq_pack_of_encode_eq_ok hs
    rcases hresult with ⟨text, rfl, rfl⟩ | hanswer
    · rfl
    · obtain ⟨status, rfl, rfl⟩ := Operation.outcome_of_answer?_cas hanswer
      cases status <;> rfl
  | @casPlain source v options k stored hk hs htoken =>
    obtain rfl := Operation.eq_ofKey_of_keyOf_eq_ok hk
    obtain rfl := Codec.eq_pack_of_encode_eq_ok hs
    rcases hresult with ⟨text, rfl, rfl⟩ | hanswer
    · rfl
    · obtain ⟨status, rfl, rfl⟩ := Operation.outcome_of_answer?_cas hanswer
      cases status <;> rfl
  | _ => rfl

/-- What exchanges put in place of items is what operations report as stored. -/
theorem put?_exchange (e : Event) (c : Cluster) :
    (exchange? e c).bind Exchange.put? = (e.stored? (step e c).1).map putOf := by
  cases e with
  | control x => rfl
  | act j a =>
    cases hj : c.clients[j]? with
    | none =>
      rw [step_act_of_none hj]
      cases a with
      | perform op =>
        rw [exchange?, hj]
        cases op <;> rfl
      | _ => rfl
    | some client =>
      rw [result_step_act hj]
      cases a with
      | perform op =>
        rw [exchange?, hj, Option.bind_some]
        rcases Client.perform_cases op client c.server with ⟨hnone, -, hmiss⟩ | ⟨x, hx, hanswered⟩
        · rw [hnone]
          have hstored : Event.stored? (.act j (.perform op))
              (some (client.act Server.network (.perform op) c.server).1) = none :=
            stored?_of_miss hmiss
          rw [hstored]
          rfl
        · rw [hx]
          exact put?_of_answered hanswered
      | _ => rfl

end Cluster

end CacheClient
