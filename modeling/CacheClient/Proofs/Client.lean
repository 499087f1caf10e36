import CacheClient.Client
import CacheClient.Proofs.Client.Calls
import CacheClient.Proofs.Connection
import CacheClient.Proofs.Operation.Arguments

/-!
# What clients do to a server

An operation of a client on a server in memory ends in one of five ways, listed in `Performed`:
nothing is sent because the arguments are refused or no key is asked for, the command fails on
the way, the server refuses it, or the server answers it. A server never answers in the wrong
shape. On a server that is up and has no timeouts ordered, a command does not fail on the way
(`perform_of_available`). What cannot be read was found live on the server
(`exists_unreadable_item`).

Whatever else a client is told to do is quiet.
-/

namespace CacheClient

open Server

/-! ## Registries -/

namespace TokenRegistry

theorem enabled_remember (r : TokenRegistry) (k : Key) (t : Token) :
    (r.remember k t).enabled = r.enabled := by
  rw [remember]
  split <;> rfl

theorem enabled_rememberAll (r : TokenRegistry) (seen : List (Key × Token)) :
    (r.rememberAll seen).enabled = r.enabled := by
  induction seen generalizing r with
  | nil => rfl
  | cons entry seen ih => exact (ih _).trans (enabled_remember r entry.1 entry.2)

theorem get?_rememberAll_of_forall_ne {k : Key} {seen : List (Key × Token)}
    (h : ∀ entry ∈ seen, entry.1 ≠ k) (r : TokenRegistry) :
    (r.rememberAll seen).get? k = r.get? k := by
  induction seen generalizing r with
  | nil => rfl
  | cons entry seen ih =>
    have hne : entry.1 ≠ k := h entry (List.mem_cons_self ..)
    have hrest := ih (fun e he => h e (List.mem_cons_of_mem _ he)) (r.remember entry.1 entry.2)
    rw [get?_remember, if_neg fun h => hne h.2] at hrest
    exact hrest

end TokenRegistry

namespace Client

theorem get?_tokens_ofConfig {τ : Type} (config : Config) (k : Key) :
    (ofConfig config : Client τ).tokens.get? k = none :=
  Std.ExtTreeMap.getElem?_empty

/-! ## Operations -/

/-- What carrying out an operation on a server can come to: the result, the client and the
server afterwards. -/
inductive Performed (op : Operation) (c : Client SessionId) (s : Server) :
    Except Error op.Answer → Client SessionId → Server → Prop
  | invalid {e} (h : op.command c.config c.tokens.get? = .error e) : Performed op c s (.error e) c s
  | void (h : op.command c.config c.tokens.get? = .ok none) : Performed op c s (.ok op.miss) c s
  | failed {command e result connection s'}
      (h : op.command c.config c.tokens.get? = .ok (some command)) (hs : Failed s s')
      (hr : result = if c.config.treatErrorsAsMiss then .ok op.miss else .error (.io e)) :
      Performed op c s result { c with connection } s'
  | refused {command text connection s'}
      (h : op.command c.config c.tokens.get? = .ok (some command))
      (hs : Carried s ⟨command, .error text⟩ s') :
      Performed op c s (.error (.server text)) { c with connection } s'
  | answered {command response answer connection s'}
      (h : op.command c.config c.tokens.get? = .ok (some command))
      (hs : Carried s ⟨command, response⟩ s') (ha : op.answer? response = some answer) :
      Performed op c s answer
        { c with connection, tokens := c.tokens.rememberAll (response.tokensFor command) } s'

theorem perform_of_failed {op : Operation} {command : Command} {c : Client SessionId}
    {s t : Server} {e : IoError} {connection : Connection SessionId}
    (h : op.command c.config c.tokens.get? = .ok (some command))
    (hexec : c.connection.execute Server.network command s = (.error e, connection, t)) :
    c.perform Server.network op s =
      (if c.config.treatErrorsAsMiss then .ok op.miss else .error (.io e),
        { c with connection := (connection.close Server.network t).1 },
        (connection.close Server.network t).2) := by
  rw [perform_of_command h, send_of_failed hexec]
  rfl

theorem performed_of_carried {op : Operation} {command : Command} {c : Client SessionId}
    {s s' : Server} {response : Response} {connection : Connection SessionId}
    (h : op.command c.config c.tokens.get? = .ok (some command))
    (hexec : c.connection.execute Server.network command s = (.ok response, connection, s'))
    (hs : Carried s ⟨command, response⟩ s') :
    (∃ text, response = .error text ∧
        c.perform Server.network op s = (.error (.server text), { c with connection }, s')) ∨
      ∃ answer, op.answer? response = some answer ∧
        c.perform Server.network op s =
          (answer,
            { c with
              connection
              tokens := c.tokens.rememberAll (response.tokensFor command) }, s') := by
  have hshape : (∃ text, response = .error text) ∨ ∃ answer, op.answer? response = some answer := by
    obtain ⟨t, -, hresponse, -⟩ := hs
    rw [show response = _ from hresponse]
    exact (Operation.denotes_of_command h).error_or_answer _ _
  rw [perform_of_command h]
  rcases hshape with ⟨text, rfl⟩ | ⟨answer, ha⟩
  · exact .inl ⟨text, rfl, send_of_refused hexec⟩
  · exact .inr ⟨answer, ha, send_of_answer hexec ha⟩

/-- An operation ends in one of the five ways. -/
theorem performed (op : Operation) (c : Client SessionId) (s : Server) :
    Performed op c s (c.perform Server.network op s).1 (c.perform Server.network op s).2.1
      (c.perform Server.network op s).2.2 := by
  cases h : op.command c.config c.tokens.get? with
  | error e =>
    rw [perform, h]
    exact .invalid h
  | ok command? =>
    cases command? with
    | none =>
      rw [perform, h]
      exact .void h
    | some command =>
      rcases Connection.execute_cases command c.connection s with
        ⟨e, connection, t, hexec, hfailed⟩ | ⟨response, connection, s', hexec, hcarried⟩
      · have hclose := Connection.quiet_close connection t
        rw [perform_of_failed h hexec]
        exact .failed h (hfailed.trans_quiet hclose) rfl
      · rcases performed_of_carried h hexec hcarried with
          ⟨text, rfl, hperform⟩ | ⟨answer, ha, hperform⟩
        · rw [hperform]
          exact .refused h hcarried
        · rw [hperform]
          exact .answered h hcarried ha

/-- An operation that cannot read an item has found it live under one of its keys. -/
theorem exists_unreadable_item {op : Operation} {c : Client SessionId} {s : Server} {error : Error}
    (h : (c.perform Server.network op s).1 = .error error) (herror : error.isUnreadable = true) :
    ∃ k i, .ofKey k ∈ op.sources ∧ s.cache.live? s.now k = some i ∧
      Codec.decode i.data i.flags = .error error := by
  have hp := performed op c s
  generalize c.perform Server.network op s = out at h hp
  obtain ⟨result, c', s'⟩ := out
  subst h
  cases hp with
  | invalid h =>
    rw [Operation.isUnreadable_of_command h] at herror
    cases herror
  | failed h hs hr =>
    split at hr <;> cases hr
    cases herror
  | refused h hs => cases herror
  | @answered command response _ _ _ h hs ha =>
    have hdenotes := Operation.denotes_of_command h
    obtain ⟨_, ⟨connections, sessions, calls, rfl⟩, hresponse, -⟩ := hs
    rw [show response = _ from hresponse] at ha
    obtain ⟨k, hk, i, hi, hdecode⟩ := hdenotes.exists_item_of_error ha
    exact ⟨k, i, hdenotes.ofKey_mem_sources hk, hi, hdecode⟩

theorem config_perform (op : Operation) (c : Client SessionId) (s : Server) :
    (c.perform Server.network op s).2.1.config = c.config := by
  have hp := performed op c s
  generalize c.perform Server.network op s = out at hp
  obtain ⟨result, c', s'⟩ := out
  cases hp <;> rfl

/-- On a server that is up and has no timeouts ordered, a command is carried out. -/
theorem perform_of_available {op : Operation} {command : Command} {c : Client SessionId}
    {s : Server} (h : op.command c.config c.tokens.get? = .ok (some command))
    (hup : s.down = false) (hfail : s.failNext = 0) :
    ∃ response connection s', Carried s ⟨command, response⟩ s' ∧
      ((∃ text, response = .error text ∧
          c.perform Server.network op s = (.error (.server text), { c with connection }, s')) ∨
        ∃ answer, op.answer? response = some answer ∧
          c.perform Server.network op s =
            (answer,
              { c with
                connection
                tokens := c.tokens.rememberAll (response.tokensFor command) }, s')) := by
  obtain ⟨response, connection, s', hexec, hcarried⟩ :=
    Connection.execute_of_available command c.connection hup hfail
  exact ⟨response, connection, s', hcarried, performed_of_carried h hexec hcarried⟩

/-! ## Other actions -/

theorem quiet_connect (reconnect : Bool) (c : Client SessionId) (s : Server) :
    Quiet s (c.connect Server.network reconnect s).2.2 := by
  have h := Connection.quiet_connect reconnect c.connection s
  rw [connect]
  split
  · next heq =>
    rw [heq] at h
    exact h
  · next heq =>
    rw [heq] at h
    exact h

theorem quiet_isConnected (c : Client SessionId) (s : Server) :
    Quiet s (c.isConnected Server.network s).2.2 := by
  show Quiet s (c.connection.probe Server.network s).2.2
  rw [Connection.probe_snd_snd]
  exact .refl s

end Client

end CacheClient
