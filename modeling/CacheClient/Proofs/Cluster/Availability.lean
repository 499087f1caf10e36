import CacheClient.Proofs.Cache.Connections
import CacheClient.Proofs.Client.Availability
import CacheClient.Proofs.Cluster.History

/-!
# When operations fail

How an operation ends can be told from the server, whatever has become of sessions
(`Client.ending`). More than that, sessions do not matter to operations at all.

**The core.** What is left of a cluster if its sessions are taken away is its core
(`Cluster.core`): the cache, the clock and the faults of the server, and the settings and the tokens
of the clients. The core after a step, and the answer to an operation, depend on the core before and
on nothing else (`core_step`, `answer_step`). Killing connections leaves the core as it is, so it
changes no answer.

Main result: `fails_exactly_when_unavailable`.
-/

namespace CacheClient

open Server

/-! ## Servers without sessions -/

namespace Server

/-- The server without its sessions, and without what was recorded of them. -/
def core (s : Server) : Server :=
  { s with cache := s.cache.withConnections 0, epoch := 0, sessions := #[], calls := [] }

variable {s t s' t' : Server}

theorem Quiet.core_eq (h : Quiet s s') : s'.core = s.core := by
  obtain ⟨_, _, _, rfl⟩ := h
  rfl

theorem obstacle?_of_core (h : s.core = t.core) : s.obstacle? = t.obstacle? := by
  have hs : s.core.obstacle? = s.obstacle? := rfl
  have ht : t.core.obstacle? = t.obstacle? := rfl
  rw [← hs, h, ht]

theorem core_remaining (h : s.core = t.core) :
    ({ s with failNext := s.remaining } : Server).core =
      ({ t with failNext := t.remaining } : Server).core := by
  have hs : ({ s with failNext := s.remaining } : Server).core =
      { s.core with failNext := s.core.remaining } := rfl
  rw [hs, h]
  rfl

theorem core_control (h : s.core = t.core) (x : Control) :
    (s.control x).core = (t.control x).core := by
  have hs : (s.control x).core = (s.core.control x).core := by cases x <;> rfl
  have ht : (t.control x).core = (t.core.control x).core := by cases x <;> rfl
  rw [hs, h, ht]

theorem core_carried {command : Command} {r : Response} (h : Carried s ⟨command, r⟩ s') :
    (s.core.cache.apply s.core.now command).1.Matches r ∧
      s'.core = { s.core with
        cache := (s.core.cache.apply s.core.now command).2
        commands := s.core.commands ++ [command] } := by
  obtain ⟨u, hquiet, hresponse, rfl⟩ := h
  rw [show r = _ from hresponse, ← hquiet.core_eq]
  obtain ⟨hmatches, hcache⟩ := Cache.apply_withConnections 0 u.now u.cache command
  exact ⟨hmatches, congrArg (fun cache => { u.core with
    cache, commands := u.commands ++ [command] }) hcache.symm⟩

theorem core_of_carried {command : Command} {r r' : Response} (h : s.core = t.core)
    (hs : Carried s ⟨command, r⟩ s') (ht : Carried t ⟨command, r'⟩ t') :
    r.Matches r' ∧ s'.core = t'.core := by
  obtain ⟨hr, hs'⟩ := core_carried hs
  obtain ⟨hr', ht'⟩ := core_carried ht
  rw [h] at hr hs'
  exact ⟨hr.join hr', hs'.trans ht'.symm⟩

end Server

/-! ## Operations -/

/-- A result without the count of connections, if it is a table of statistics. -/
def Operation.shown : (op : Operation) → Except Error op.Answer → Except Error op.Answer
  | .stats, .ok table => .ok (withoutConnections table)
  | _, result => result

/-- Responses that match have the same verdict, up to the count of connections. -/
theorem Operation.verdict_of_matches (op : Operation) (command : Command) {r r' : Response}
    (h : r.Matches r') :
    (∃ e, op.verdict command (.ok r) = .inl e ∧ op.verdict command (.ok r') = .inl e) ∨
      ∃ result result' seen, op.verdict command (.ok r) = .inr (result, seen) ∧
        op.verdict command (.ok r') = .inr (result', seen) ∧
        op.shown result = op.shown result' := by
  cases h with
  | same =>
    cases h : op.verdict command (.ok r) with
    | inl e => exact .inl ⟨e, rfl, rfl⟩
    | inr told => exact .inr ⟨told.1, told.1, told.2, rfl, rfl, rfl⟩
  | @stats table table' h =>
    have hseen : ∀ table, (Response.stats table).tokensFor command = [] := by
      intro table
      cases command <;> rfl
    cases op with
    | stats =>
      refine .inr ⟨.ok table, .ok table', [], ?_, ?_, congrArg Except.ok h⟩
      · simp only [verdict, answer?, hseen]
      · simp only [verdict, answer?, hseen]
    | _ => exact .inl ⟨_, rfl, rfl⟩

namespace Client

/-- A client without its connection. -/
def core {τ : Type} (c : Client τ) : Config × TokenRegistry := (c.config, c.tokens)

/-- What is left of an outcome without connections and sessions. -/
def coreOf {α : Type} (out : α × Client SessionId × Server) : (Config × TokenRegistry) × Server :=
  (out.2.1.core, out.2.2.core)

variable {c d : Client SessionId} {s t : Server}

theorem coreOf_of_quiet {α : Type} {out : α × Client SessionId × Server}
    (hclient : out.2.1.core = c.core) (hserver : Quiet s out.2.2) :
    coreOf out = (c.core, s.core) :=
  Prod.ext hclient hserver.core_eq

theorem coreOf_fail (op : Operation) (e : Error) (c : Client SessionId) (s : Server) :
    coreOf (c.fail Server.network op e s) = (c.core, s.core) :=
  coreOf_of_quiet rfl (Connection.quiet_close c.connection s)

/-- Sending a command has the same result on equal cores, up to the count of connections, and leaves
equal cores. -/
theorem core_send {op : Operation} {command : Command}
    (hclient : c.core = d.core) (hserver : s.core = t.core)
    (h : op.command c.config c.tokens.get? = .ok (some command)) :
    op.shown (c.send Server.network op command s).1 =
        op.shown (d.send Server.network op command t).1 ∧
      coreOf (c.send Server.network op command s) =
        coreOf (d.send Server.network op command t) := by
  have hreported : ∀ e, reported c.config op e = reported d.config op e :=
    fun e => congrArg (fun core => reported core.1 op e) hclient
  have hd : op.command d.config d.tokens.get? = .ok (some command) :=
    (congrArg (fun core => op.command core.1 core.2.get?) hclient).symm.trans h
  cases he : s.obstacle? with
  | some e =>
    have he' : t.obstacle? = some e := (obstacle?_of_core hserver).symm.trans he
    obtain ⟨_, s', hperform, hs⟩ := perform_of_obstacle h he
    obtain ⟨_, t', hperform', ht⟩ := perform_of_obstacle hd he'
    rw [← perform_of_command h, ← perform_of_command hd, hperform, hperform']
    refine ⟨congrArg op.shown (hreported _), Prod.ext hclient ?_⟩
    exact hs.core_eq.trans ((core_remaining hserver).trans ht.core_eq.symm)
  | none =>
    have he' : t.obstacle? = none := (obstacle?_of_core hserver).symm.trans he
    obtain ⟨hup, hfail⟩ := obstacle?_eq_none_iff.1 he
    obtain ⟨hup', hfail'⟩ := obstacle?_eq_none_iff.1 he'
    obtain ⟨r, x, s', hexec, hs⟩ := Connection.execute_of_available command c.connection hup hfail
    obtain ⟨r', x', t', hexec', ht⟩ :=
      Connection.execute_of_available command d.connection hup' hfail'
    obtain ⟨hmatches, hcore⟩ := core_of_carried hserver hs ht
    rw [send_of_verdict hexec, send_of_verdict hexec']
    rcases op.verdict_of_matches command hmatches with
      ⟨e, hverdict, hverdict'⟩ | ⟨result, result', seen, hverdict, hverdict', hshown⟩
    · rw [hverdict, hverdict']
      refine ⟨congrArg op.shown (hreported e), ?_⟩
      dsimp only
      rw [coreOf_fail, coreOf_fail]
      exact Prod.ext hclient hcore
    · rw [hverdict, hverdict']
      refine ⟨hshown, Prod.ext ?_ hcore⟩
      exact congrArg (fun core => (core.1, core.2.rememberAll seen)) hclient

theorem core_perform (hclient : c.core = d.core) (hserver : s.core = t.core) (op : Operation) :
    op.shown (c.perform Server.network op s).1 = op.shown (d.perform Server.network op t).1 ∧
      coreOf (c.perform Server.network op s) = coreOf (d.perform Server.network op t) := by
  have hcommand : op.command c.config c.tokens.get? = op.command d.config d.tokens.get? :=
    congrArg (fun core => op.command core.1 core.2.get?) hclient
  cases h : op.command c.config c.tokens.get? with
  | error e =>
    rw [perform, perform, ← hcommand, h]
    exact ⟨rfl, Prod.ext hclient hserver⟩
  | ok command? =>
    cases command? with
    | none =>
      rw [perform, perform, ← hcommand, h]
      exact ⟨rfl, Prod.ext hclient hserver⟩
    | some command =>
      rw [perform_of_command h, perform_of_command (hcommand.symm.trans h)]
      exact core_send hclient hserver h

theorem core_act (hclient : c.core = d.core) (hserver : s.core = t.core) (a : Action) :
    coreOf (c.act Server.network a s) = coreOf (d.act Server.network a t) := by
  have hquiet : (∀ x u, coreOf (act Server.network a x u) = (x.core, u.core)) →
      coreOf (c.act Server.network a s) = coreOf (d.act Server.network a t) := by
    intro h
    rw [h, h, hclient, hserver]
  cases a with
  | perform op => exact (core_perform hclient hserver op).2
  | connect reconnect =>
    refine hquiet fun x u => coreOf_of_quiet ?_ (quiet_connect reconnect x u)
    show (x.connect Server.network reconnect u).2.1.core = x.core
    rw [connect]
    split <;> rfl
  | close => exact hquiet fun x u => coreOf_of_quiet rfl (Connection.quiet_close x.connection u)
  | isConnected => exact hquiet fun x u => coreOf_of_quiet rfl (quiet_isConnected x u)
  | setRemembering on =>
    exact Prod.ext (congrArg (fun core => (core.1, core.2.setEnabled on)) hclient) hserver
  | resetTokens =>
    exact Prod.ext (congrArg (fun core => (core.1, core.2.reset)) hclient) hserver

end Client

/-! ## Clusters -/

namespace Cluster

/-- A cluster without its sessions and connections. -/
def core (c : Cluster) : Server × Array (Config × TokenRegistry) :=
  (c.server.core, c.clients.map Client.core)

/-- The event is no killing of connections. -/
def Event.spares : Event → Bool
  | .control .killConnections => false
  | _ => true

/-- The operation that an event is, with the number of the client, and its result, if there is such
a client. The count of connections is left out of statistics. -/
def Event.answer? :
    (Σ e : Event, e.Result) → Option (Nat × Σ op : Operation, Option (Except Error op.Answer))
  | ⟨.act j (.perform op), result⟩ => some (j, ⟨op, result.map op.shown⟩)
  | _ => none

variable {c d : Cluster}

theorem core_clients (h : c.core = d.core) (j : Nat) :
    c.clients[j]?.map Client.core = d.clients[j]?.map Client.core := by
  have hclients : c.clients.map Client.core = d.clients.map Client.core := congrArg Prod.snd h
  rw [← Array.getElem?_map, hclients, Array.getElem?_map]

theorem core_step_act {j : Nat} {x : Client SessionId} (hx : c.clients[j]? = some x)
    (a : Client.Action) :
    (step (.act j a) c).2.core =
      ((Client.coreOf (x.act Server.network a c.server)).2,
        (c.clients.map Client.core).setIfInBounds j
          (Client.coreOf (x.act Server.network a c.server)).1) := by
  refine Prod.ext ?_ ?_
  · exact congrArg Server.core (server_step_act hx a)
  · simp only [step, hx, core, Client.coreOf, Array.map_setIfInBounds]

/-- **A step depends on the core alone**: it leaves equal cores, and if it is an operation, it has
the same result up to the count of connections. -/
theorem core_step (h : c.core = d.core) (e : Event) :
    (step e c).2.core = (step e d).2.core ∧
      Event.answer? ⟨e, (step e c).1⟩ = Event.answer? ⟨e, (step e d).1⟩ := by
  have hserver : c.server.core = d.server.core := congrArg Prod.fst h
  have hclients : c.clients.map Client.core = d.clients.map Client.core := congrArg Prod.snd h
  cases e with
  | control x => exact ⟨Prod.ext (core_control hserver x) hclients, rfl⟩
  | act j a =>
    have hj := core_clients h j
    cases hc : c.clients[j]? with
    | none =>
      have hd : d.clients[j]? = none := by
        rw [hc] at hj
        exact Option.map_eq_none_iff.1 hj.symm
      rw [step_act_of_none hc, step_act_of_none hd]
      exact ⟨h, rfl⟩
    | some x =>
      rw [hc] at hj
      obtain ⟨y, hd, hyx⟩ := Option.map_eq_some_iff.1 hj.symm
      have hcore := Client.core_act hyx.symm hserver a
      refine ⟨?_, ?_⟩
      · rw [core_step_act hc, core_step_act hd, hcore, hclients]
      · rw [result_step_act hc, result_step_act hd]
        cases a with
        | perform op =>
          have hanswer := (Client.core_perform hyx.symm hserver op).1
          simp only [Event.answer?, Client.act, Option.map_some, hanswer]
        | _ => rfl

/-- A run with equal cores, from which the killing of connections is left out, gives the same
answers and leaves equal cores. -/
theorem core_run (h : c.core = d.core) (events : List Event) :
    (run events c).2.core = (run (events.filter Event.spares) d).2.core ∧
      (run events c).1.filterMap Event.answer? =
        (run (events.filter Event.spares) d).1.filterMap Event.answer? := by
  induction events generalizing c d with
  | nil => exact ⟨h, rfl⟩
  | cons e events ih =>
    cases hspares : e.spares with
    | true =>
      obtain ⟨hcore, hanswer⟩ := core_step h e
      obtain ⟨hrun, hanswers⟩ := ih hcore
      rw [List.filter_cons_of_pos hspares, run_cons, run_cons, List.filterMap_cons,
        List.filterMap_cons, hanswer, hanswers]
      exact ⟨hrun, rfl⟩
    | false =>
      -- killing connections leaves the core as it is, and is no operation
      have hkill : (step e c).2.core = c.core ∧ Event.answer? ⟨e, (step e c).1⟩ = none := by
        cases e with
        | control x => cases x <;> first | exact ⟨rfl, rfl⟩ | cases hspares
        | act j a => cases hspares
      obtain ⟨hrun, hanswers⟩ := ih (hkill.1.trans h)
      rw [List.filter_cons_of_neg (by simp [hspares]), run_cons, List.filterMap_cons, hkill.2]
      exact ⟨hrun, hanswers⟩

/-- **Operations fail exactly when the server is unavailable**, however clients and server came to
be in the state in which they are. Whether the transport fails for an operation in order can be told
from the server, and such a failure leaves the cache as it is (`Client.Ending`). Two runs that
differ in the killing of connections only give the same answers and leave the same items. -/
theorem fails_exactly_when_unavailable (c : Cluster) :
    (∀ j op client, c.clients[j]? = some client → op.fault? client.config = none →
      op.isVoid = false →
      ∃ result, (c.perform j op).1 = some result ∧
        Client.Ending op client c.server result (c.perform j op).2.server) ∧
    ∀ events events', events.filter Event.spares = events'.filter Event.spares →
      (run events c).1.filterMap Event.answer? = (run events' c).1.filterMap Event.answer? ∧
        (run events c).2.server.cache.items = (run events' c).2.server.cache.items := by
  refine ⟨?_, ?_⟩
  · intro j op client hclient hfault hvoid
    refine ⟨_, result_step_act hclient (.perform op), ?_⟩
    rw [perform, server_step_act hclient]
    exact Client.ending hfault hvoid c.server
  · intro events events' heq
    obtain ⟨hcore, hanswers⟩ := core_run (rfl : c.core = c.core) events
    obtain ⟨hcore', hanswers'⟩ := core_run (rfl : c.core = c.core) events'
    rw [heq] at hcore hanswers
    refine ⟨hanswers.trans hanswers'.symm, ?_⟩
    exact congrArg (fun core => core.1.cache.items) (hcore.trans hcore'.symm)

end Cluster

end CacheClient
