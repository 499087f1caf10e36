import CacheClient.Client
import CacheClient.Server

/-!
# Clients that share a server

Any number of clients, each with its own configuration, on one server in memory. What happens to
them, in any order, is a list of events: an action of one of the clients, or control of the
server from outside.
-/

namespace CacheClient

/-- A server and its clients. -/
structure Cluster where
  server : Server
  clients : Array (Client SessionId)

namespace Cluster

/-- Fresh clients on a server. -/
def ofConfigs (server : Server) (configs : List Config) : Cluster :=
  ⟨server, (configs.map Client.ofConfig).toArray⟩

/-- Something that happens in a cluster. -/
inductive Event where
  | act (client : Nat) (a : Client.Action)
  | control (c : Server.Control)

/-- What an event gives back: for an action its result, if there is such a client. -/
@[reducible] def Event.Result : Event → Type
  | .act _ a => Option a.Result
  | .control _ => Unit

/-- Carry out an event. -/
def step : (e : Event) → Cluster → e.Result × Cluster
  | .act i a, c =>
    match c.clients[i]? with
    | none => (none, c)
    | some client =>
      let (result, client, server) := client.act Server.network a c.server
      (some result, ⟨server, c.clients.setIfInBounds i client⟩)
  | .control x, c => ((), { c with server := c.server.control x })

/-- Carry out events, one after the other. -/
def run : List Event → Cluster → List (Σ e : Event, e.Result) × Cluster
  | [], c => ([], c)
  | e :: events, c =>
    let (result, c) := step e c
    let (results, c) := run events c
    (⟨e, result⟩ :: results, c)

end Cluster

end CacheClient
