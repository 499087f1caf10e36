import CacheClient.Cluster
import CacheClient.Proofs.Client

/-!
# What happens in a cluster

An action of a client changes that client and the server, and nothing else in a cluster. An event
that keeps off a key (`Event.KeepsOff`) leaves it alone: its item on the server stays as it is,
and so do the tokens that clients remember for it (`calm_step`).
-/

namespace CacheClient

open Server

namespace Cluster

/-! ## Actions -/

/-- An operation of a client, with its result if there is such a client. -/
def perform (j : Nat) (op : Operation) (c : Cluster) :
    Option (Except Error op.Answer) × Cluster :=
  step (.act j (.perform op)) c

/-- Where clients are after an action of one of them. -/
theorem clients_step_act {c : Cluster} {i : Nat} {client : Client SessionId}
    (h : c.clients[i]? = some client) (a : Client.Action) (j : Nat) :
    (step (.act i a) c).2.clients[j]? =
      if i = j then some (client.act Server.network a c.server).2.1 else c.clients[j]? := by
  have hi : i < c.clients.size := (Array.getElem?_eq_some_iff.1 h).1
  simp only [step, h, Array.getElem?_setIfInBounds, hi, if_true]

theorem server_step_act {c : Cluster} {i : Nat} {client : Client SessionId}
    (h : c.clients[i]? = some client) (a : Client.Action) :
    (step (.act i a) c).2.server = (client.act Server.network a c.server).2.2 := by
  simp only [step, h]

theorem result_step_act {c : Cluster} {i : Nat} {client : Client SessionId}
    (h : c.clients[i]? = some client) (a : Client.Action) :
    (step (.act i a) c).1 = some (client.act Server.network a c.server).1 := by
  simp only [step, h]

theorem step_act_of_none {c : Cluster} {i : Nat} (h : c.clients[i]? = none) (a : Client.Action) :
    step (.act i a) c = (none, c) := by
  simp only [step, h]

end Cluster

/-! ## Settings -/

/-- No action changes the settings of a client. -/
theorem Client.config_act (a : Client.Action) (c : Client SessionId) (s : Server) :
    (c.act Server.network a s).2.1.config = c.config := by
  cases a with
  | perform op => exact config_perform op c s
  | connect reconnect =>
    show (c.connect Server.network reconnect s).2.1.config = c.config
    rw [connect]
    split <;> rfl
  | _ => rfl

theorem Cluster.config_perform {c : Cluster} {j : Nat} {client : Client SessionId}
    (h : c.clients[j]? = some client) (i : Nat) (op : Operation) :
    ∃ client', (c.perform i op).2.clients[j]? = some client' ∧
      client'.config = client.config := by
  cases hi : c.clients[i]? with
  | none =>
    rw [perform, step_act_of_none hi]
    exact ⟨client, h, rfl⟩
  | some x =>
    rw [perform, clients_step_act hi]
    by_cases hij : i = j
    · subst hij
      cases hi.symm.trans h
      rw [if_pos rfl]
      exact ⟨_, rfl, Client.config_act (.perform op) client c.server⟩
    · rw [if_neg hij]
      exact ⟨client, h, rfl⟩

/-! ## Keeping off a key -/

/-- An action that has nothing to do with a key, and forgets no tokens. -/
def Client.Action.KeepsOff (k : Key) : Client.Action → Prop
  | .perform op => op ≠ .flushAll ∧ .ofKey k ∉ op.sources
  | .setRemembering on => on = true
  | .resetTokens => False
  | .connect _ | .close | .isConnected => True

/-- An event that has nothing to do with a key, and forgets no tokens. -/
def Cluster.Event.KeepsOff (k : Key) : Cluster.Event → Prop
  | .act _ a => a.KeepsOff k
  | .control _ => True

/-- A step of a client that leaves a key alone: its item on the server, and its token. -/
structure Client.Calm (k : Key) (c : Client SessionId) (s : Server) (c' : Client SessionId)
    (s' : Server) : Prop where
  spares : Spares k s s'
  enabled : c.tokens.enabled = true → c'.tokens.enabled = true
  token : c'.tokens.get? k = c.tokens.get? k

namespace Client

/-- A client that keeps its tokens as they are. -/
theorem Calm.of_tokens_eq {k : Key} {c c' : Client SessionId} {s s' : Server}
    (hs : Spares k s s') (hc : c'.tokens = c.tokens) : Calm k c s c' s' where
  spares := hs
  enabled h := by rw [hc]; exact h
  token := by rw [hc]

/-- An operation that does not name the key leaves it alone. -/
theorem calm_perform {k : Key} {op : Operation} (hflush : op ≠ .flushAll)
    (hk : .ofKey k ∉ op.sources) (c : Client SessionId) (s : Server) :
    Calm k c s (c.perform Server.network op s).2.1 (c.perform Server.network op s).2.2 := by
  have hp := performed op c s
  generalize c.perform Server.network op s = out at hp
  obtain ⟨result, c', s'⟩ := out
  have hkeys : ∀ {command}, op.command c.config c.tokens.get? = .ok (some command) →
      k ∉ command.keys ∧ command ≠ .flushAll := by
    intro command hcommand
    have hdenotes := Operation.denotes_of_command hcommand
    refine ⟨fun hmem => hk (hdenotes.ofKey_mem_sources hmem), ?_⟩
    rintro rfl
    exact hflush hdenotes.eq_flushAll
  have hdisturbs : ∀ {command} {response : Response},
      op.command c.config c.tokens.get? = .ok (some command) →
        ¬Exchange.Disturbs k ⟨command, response⟩ := by
    intro command response hcommand hd
    rcases Exchange.mem_keys_of_disturbs hd with hmem | hall
    · exact (hkeys hcommand).1 hmem
    · exact (hkeys hcommand).2 hall
  cases hp with
  | invalid h => exact .of_tokens_eq (.refl k _) rfl
  | void h => exact .of_tokens_eq (.refl k _) rfl
  | failed h hs hr => exact .of_tokens_eq (hs.spares k) rfl
  | refused h hs => exact .of_tokens_eq (.of_some hs.moves (hdisturbs h)) rfl
  | @answered command response _ _ _ h hs ha =>
    refine ⟨.of_some hs.moves (hdisturbs h), ?_, ?_⟩
    · intro henabled
      exact (TokenRegistry.enabled_rememberAll _ _).trans henabled
    · refine TokenRegistry.get?_rememberAll_of_forall_ne (fun entry hentry hne => ?_) _
      obtain ⟨t, -, hresponse, -⟩ := hs
      rw [show response = _ from hresponse] at hentry
      obtain ⟨a, token⟩ := entry
      cases hne
      exact (hkeys h).1 (Cache.live?_of_mem_tokensFor hentry).1

theorem calm_act {k : Key} {a : Action} (h : a.KeepsOff k) (c : Client SessionId) (s : Server) :
    Calm k c s (c.act Server.network a s).2.1 (c.act Server.network a s).2.2 := by
  cases a with
  | perform op => exact calm_perform h.1 h.2 c s
  | connect reconnect =>
    refine .of_tokens_eq ((quiet_connect reconnect c s).spares k) ?_
    show (c.connect Server.network reconnect s).2.1.tokens = c.tokens
    rw [connect]
    split <;> rfl
  | close => exact .of_tokens_eq ((Connection.quiet_close c.connection s).spares k) rfl
  | isConnected => exact .of_tokens_eq ((quiet_isConnected c s).spares k) rfl
  | setRemembering on => exact ⟨.refl k s, fun _ => h, rfl⟩
  | resetTokens => exact absurd h id

end Client

namespace Cluster

/-- A step of a cluster that leaves a key alone: its item, and the tokens that clients remember
for it. -/
structure Calm (k : Key) (c c' : Cluster) : Prop where
  spares : Spares k c.server c'.server
  clients : ∀ {j : Nat} {y : Client SessionId}, c'.clients[j]? = some y →
    ∃ x, c.clients[j]? = some x ∧ (x.tokens.enabled = true → y.tokens.enabled = true) ∧
      y.tokens.get? k = x.tokens.get? k

theorem Calm.refl (k : Key) (c : Cluster) : Calm k c c where
  spares := .refl k c.server
  clients h := ⟨_, h, id, rfl⟩

theorem calm_step_act {k : Key} {c : Cluster} {i : Nat} {client : Client SessionId}
    (h : c.clients[i]? = some client) {a : Client.Action}
    (hcalm : Client.Calm k client c.server (client.act Server.network a c.server).2.1
      (client.act Server.network a c.server).2.2) : Calm k c (step (.act i a) c).2 where
  spares := by
    rw [server_step_act h]
    exact hcalm.spares
  clients {j y} hy := by
    rw [clients_step_act h] at hy
    by_cases hij : i = j
    · rw [if_pos hij] at hy
      cases hy
      exact ⟨client, hij ▸ h, hcalm.enabled, hcalm.token⟩
    · rw [if_neg hij] at hy
      exact ⟨y, hy, id, rfl⟩

/-- What keeps off a key leaves it alone. -/
theorem calm_step {k : Key} {e : Event} (he : e.KeepsOff k) (c : Cluster) :
    Calm k c (step e c).2 := by
  cases e with
  | control x =>
    exact ⟨.of_none (moves_step (.control x) c.server), fun h => ⟨_, h, id, rfl⟩⟩
  | act i a =>
    cases hi : c.clients[i]? with
    | none =>
      rw [step_act_of_none hi]
      exact .refl k c
    | some client => exact calm_step_act hi (Client.calm_act he client c.server)

end Cluster

end CacheClient
