import CacheClient.Proofs.Cluster
import CacheClient.Proofs.Server.Tokens
import Mathlib.Tactic.Common

/-!
# Reading, modifying and writing without contention

A client reads a key with its token and stores under it right afterwards, on a server that is up.
If the read found an item, the client remembers the item's present token and the store succeeds,
whatever tokens the client had seen before. If there was no item, the client keeps the token that
it remembers from an earlier read, if any: without one the store is unconditional and succeeds,
with one it asks for a version that is gone and is refused.

Main result: `cas_after_gets`. That a read which finds nothing does not guarantee success is
`cas_after_gets_refused`.
-/

namespace CacheClient

open Server

namespace Client

variable {c : Client SessionId} {s : Server} {source : Key.Source} {k : Key} {v : Value}
  {options : StoreSettings} {e : Encoded} {token : Token}

/-! ## Reading -/

theorem perform_gets_of_available (hup : s.down = false) (hfail : s.failNext = 0)
    (hk : Operation.keyOf c.config source = .ok k) :
    let out := c.perform Server.network (.gets source) s
    (out.2.2.down = false ∧ out.2.2.failNext = 0 ∧ out.2.2.now = s.now ∧
        out.2.2.cache.live? out.2.2.now k = s.cache.live? s.now k) ∧
      out.2.1.config = c.config ∧
      out.2.1.tokens =
        (s.cache.live? s.now k).elim c.tokens fun i => c.tokens.remember k i.token := by
  intro out
  obtain ⟨response, connection, s', hcarried, hperform⟩ :=
    perform_of_available ((Operation.Denotes.gets hk).command_eq rfl) hup hfail
  obtain ⟨hnow, hdown, hfailNext⟩ := hcarried.frame
  have hspares : Spares k s s' := .of_some hcarried.moves (Exchange.not_disturbs_gets k k response)
  obtain rfl := hcarried.read rfl
  rcases hperform with ⟨text, hresponse, -⟩ | ⟨answer, -, hperform⟩
  · cases hresponse
  · rw [show out = _ from hperform]
    refine ⟨⟨hdown.trans hup, hfailNext.trans hfail, hnow, hspares.live?_eq hnow⟩, rfl, ?_⟩
    cases s.cache.live? s.now k with
    | none => rfl
    | some i => rfl

/-! ## Storing -/

/-- The item that a store leaves. -/
def stored (e : Encoded) (options : StoreSettings) (s : Server) : Cache.Entry :=
  ⟨e.data, e.flags.bits, s.cache.lastToken + 1, Cache.deadline s.now options.ttl⟩

theorem live?_stored {s s' : Server} (hnow : s'.now = s.now)
    (hitem : s'.cache.items[k]? = some (stored e options s)) :
    s'.cache.live? s'.now k = some (stored e options s) := by
  refine Cache.live?_eq_some_iff.2 ⟨hitem, ?_⟩
  rw [hnow]
  exact Cache.isExpired_deadline ..

theorem perform_cas_of_available {command : Command} (hup : s.down = false) (hfail : s.failNext = 0)
    (hdenotes : Operation.Denotes c.config c.tokens.get? (.cas source v options) command) :
    let out := c.perform Server.network (.cas source v options) s
    ∃ outcome, Carried s ⟨command, .store outcome⟩ out.2.2 ∧ out.1 = .ok outcome.isStored := by
  intro out
  obtain ⟨response, connection, s', hcarried, hperform⟩ :=
    perform_of_available (hdenotes.command_eq rfl) hup hfail
  have hstore : ∃ outcome, response = .store outcome := by
    obtain ⟨t, -, hresponse, -⟩ := hcarried
    cases hdenotes with
    | cas hk hs htoken => exact ⟨_, hresponse⟩
    | casPlain hk hs htoken => exact ⟨_, hresponse⟩
  obtain ⟨outcome, rfl⟩ := hstore
  rcases hperform with ⟨text, hresponse, -⟩ | ⟨answer, ha, hperform⟩
  · cases hresponse
  · obtain rfl := Option.some.inj ha
    rw [show out = _ from hperform]
    exact ⟨outcome, hcarried, rfl⟩

theorem perform_cas_of_no_token (hup : s.down = false) (hfail : s.failNext = 0)
    (hk : Operation.keyOf c.config source = .ok k)
    (he : Operation.encodedOf c.config v options = .ok e) (htoken : c.tokens.get? k = none) :
    let out := c.perform Server.network (.cas source v options) s
    out.1 = .ok true ∧ out.2.2.cache.live? out.2.2.now k = some (stored e options s) := by
  intro out
  obtain ⟨outcome, hcarried, hresult⟩ :=
    perform_cas_of_available hup hfail (.casPlain hk he htoken)
  obtain ⟨hanswer, hitem⟩ := hcarried.set
  obtain rfl := Response.store.inj hanswer
  exact ⟨hresult, live?_stored hcarried.frame.1 hitem⟩

theorem perform_cas_of_current (hup : s.down = false) (hfail : s.failNext = 0)
    (hk : Operation.keyOf c.config source = .ok k)
    (he : Operation.encodedOf c.config v options = .ok e) (htoken : c.tokens.get? k = some token)
    {i : Cache.Entry} (hi : s.cache.live? s.now k = some i) (hcurrent : i.token = token) :
    let out := c.perform Server.network (.cas source v options) s
    out.1 = .ok true ∧ out.2.2.cache.live? out.2.2.now k = some (stored e options s) := by
  intro out
  obtain ⟨outcome, hcarried, hresult⟩ :=
    perform_cas_of_available hup hfail (.cas hk he htoken)
  have hanswer := hcarried.moves.answer_of_cas rfl
  rw [hi, Option.elim_some, if_pos hcurrent] at hanswer
  obtain rfl := Response.store.inj hanswer
  exact ⟨hresult, live?_stored hcarried.frame.1 hcarried.cas_stored⟩

theorem perform_cas_of_gone (hup : s.down = false) (hfail : s.failNext = 0)
    (hk : Operation.keyOf c.config source = .ok k)
    (he : Operation.encodedOf c.config v options = .ok e) (htoken : c.tokens.get? k = some token)
    (hgone : s.cache.live? s.now k = none) :
    let out := c.perform Server.network (.cas source v options) s
    out.1 = .ok false ∧ out.2.2.cache.live? out.2.2.now k = none := by
  intro out
  obtain ⟨outcome, hcarried, hresult⟩ :=
    perform_cas_of_available hup hfail (.cas hk he htoken)
  have hanswer := hcarried.moves.answer_of_cas rfl
  rw [hgone, Option.elim_none] at hanswer
  obtain rfl := Response.store.inj hanswer
  have hspares : Spares k s out.2.2 := .of_some hcarried.moves (Exchange.not_disturbs_cas (by simp))
  exact ⟨hresult, (hspares.live?_eq hcarried.frame.1).trans hgone⟩

end Client

namespace Cluster

/-- **An uncontended read-modify-write succeeds**, unless the key has no item and the client
still remembers a token of one that is gone. A client that remembers tokens reads a key, and
then stores under it with nothing in between, on a server that is up and has no timeouts
ordered:

* if there was a live item, with or without bytes, or the client knew no token for the key, the
  store reports success and the value is on the server;
* otherwise it reports that nothing was stored, and the key still has no item. -/
theorem cas_after_gets {c : Cluster} {j : Nat} {client : Client SessionId} {source : Key.Source}
    {k : Key} {v : Value} {options : StoreSettings} {e : Encoded}
    (hup : c.server.down = false) (hfail : c.server.failNext = 0)
    (hclient : c.clients[j]? = some client) (henabled : client.tokens.enabled = true)
    (hk : Operation.keyOf client.config source = .ok k)
    (he : Operation.encodedOf client.config v options = .ok e) :
    let out := (c.perform j (.gets source)).2.perform j (.cas source v options)
    let server := out.2.server
    (c.server.cache.live? c.server.now k ≠ none ∨ client.tokens.get? k = none →
        out.1 = some (.ok true) ∧ ∃ token, server.cache.live? server.now k =
          some ⟨e.data, e.flags.bits, token, Cache.deadline c.server.now options.ttl⟩) ∧
      (c.server.cache.live? c.server.now k = none → client.tokens.get? k ≠ none →
        out.1 = some (.ok false) ∧ server.cache.live? server.now k = none) := by
  intro out server
  obtain ⟨⟨hup₁, hfail₁, hnow₁, hlive₁⟩, hconfig, htokens⟩ :=
    Client.perform_gets_of_available hup hfail hk
  -- the client and the server between the two operations
  have hserver : (c.perform j (.gets source)).2.server =
      (client.perform Server.network (.gets source) c.server).2.2 :=
    server_step_act hclient (.perform (.gets source))
  have hclient₁ : (c.perform j (.gets source)).2.clients[j]? =
      some (client.perform Server.network (.gets source) c.server).2.1 :=
    (clients_step_act hclient (.perform (.gets source)) j).trans (if_pos rfl)
  have hout : out.1 = _ := result_step_act hclient₁ (.perform (.cas source v options))
  have hfinal : server = _ := server_step_act hclient₁ (.perform (.cas source v options))
  rw [hserver] at hout hfinal
  generalize client.perform Server.network (.gets source) c.server = first at *
  obtain ⟨result, client₁, s₁⟩ := first
  rw [← hconfig] at hk he
  rw [hfinal, hout]
  cases hi : c.server.cache.live? c.server.now k with
  | some i =>
    have htoken : client₁.tokens.get? k = some i.token := by
      rw [hi] at htokens
      rw [htokens, Option.elim_some, TokenRegistry.get?_remember, if_pos ⟨henabled, rfl⟩]
    obtain ⟨hok, hheld⟩ :=
      Client.perform_cas_of_current hup₁ hfail₁ hk he htoken (hlive₁.trans hi) rfl
    refine ⟨fun _ => ⟨congrArg some hok, s₁.cache.lastToken + 1, ?_⟩, fun h => by cases h⟩
    rw [← hnow₁]
    exact hheld
  | none =>
    rw [hi] at htokens
    have htokens : client₁.tokens = client.tokens := htokens
    rw [← htokens]
    cases htoken : client₁.tokens.get? k with
    | none =>
      obtain ⟨hok, hheld⟩ := Client.perform_cas_of_no_token hup₁ hfail₁ hk he htoken
      refine ⟨fun _ => ⟨congrArg some hok, s₁.cache.lastToken + 1, ?_⟩, fun _ h => absurd rfl h⟩
      rw [← hnow₁]
      exact hheld
    | some token =>
      obtain ⟨hok, hheld⟩ :=
        Client.perform_cas_of_gone hup₁ hfail₁ hk he htoken (hlive₁.trans hi)
      exact ⟨fun h => by simp at h, fun _ _ => ⟨congrArg some hok, hheld⟩⟩

/-- The token of an earlier read, of an item that others replaced since, does no harm. -/
theorem cas_after_gets_replaced :
    let k : Key := ⟨[107], List.cons_ne_nil _ _, List.forall_mem_singleton.2 rfl⟩
    let config : Config := { rememberTokens := true }
    let events : List Event :=
      [.act 0 (.perform (.store .set (.ofKey k) (.raw [97]) {})),
        .act 0 (.perform (.gets (.ofKey k))), .act 1 (.perform (.delete (.ofKey k))),
        .act 1 (.perform (.store .add (.ofKey k) (.raw []) {}))]
    let c := (run events (ofConfigs (withVersion "1") [config, config])).2
    let out := (c.perform 0 (.gets (.ofKey k))).2.perform 0 (.cas (.ofKey k) (.raw [98]) {})
    ∃ client, c.clients[0]? = some client ∧ client.tokens.enabled = true ∧
      client.tokens.get? k = some 1 ∧ c.server.down = false ∧ c.server.failNext = 0 ∧
      Operation.keyOf client.config (.ofKey k) = .ok k ∧
      Operation.encodedOf client.config (.raw [98]) {} = .ok ⟨.plain .raw, [98]⟩ ∧
      (c.perform 0 (.gets (.ofKey k))).1 = some (.ok none) ∧ out.1 = some (.ok true) ∧
      ∃ token, out.2.server.cache.live? out.2.server.now k =
        some ⟨[98], (Flags.plain .raw).bits, token, Cache.deadline c.server.now 0⟩ := by
  intro k config events c out
  obtain ⟨client, hclient⟩ : ∃ client, c.clients[0]? = some client :=
    Option.isSome_iff_exists.1 (by decide +kernel)
  have hstate : c.clients[0]?.map (fun x => (x.config, x.tokens.enabled, x.tokens.get? k)) =
      some (config, true, some 1) := by decide +kernel
  rw [hclient, Option.map_some, Option.some.injEq, Prod.mk.injEq, Prod.mk.injEq] at hstate
  obtain ⟨hconfig, henabled, htoken⟩ := hstate
  have hup : c.server.down = false := by decide +kernel
  have hfail : c.server.failNext = 0 := by decide +kernel
  have hk : Operation.keyOf client.config (.ofKey k) = .ok k := by
    rw [hconfig]
    decide +kernel
  have he : Operation.encodedOf client.config (.raw [98]) {} = .ok ⟨.plain .raw, [98]⟩ := by
    rw [hconfig]
    decide +kernel
  have hgets : (c.perform 0 (.gets (.ofKey k))).1 = some (.ok none) := by decide +kernel
  have hitem : c.server.cache.live? c.server.now k ≠ none := by decide +kernel
  clear_value c
  refine ⟨client, hclient, henabled, htoken, hup, hfail, hk, he, hgets, ?_⟩
  exact (cas_after_gets hup hfail hclient henabled hk he).1 (.inl hitem)

/-- A read that finds nothing does not make sure that the store succeeds: if the client read the
item before it was removed, it still asks for that item. -/
theorem cas_after_gets_refused :
    ¬∀ (version : String) (configs : List Config) (events : List Event) (j : Nat)
        (client : Client SessionId) (k : Key) (v : Value) (options : StoreSettings) (e : Encoded)
        (found : Option Value),
      let c := (run events (ofConfigs (withVersion version) configs)).2
      let out := (c.perform j (.gets (.ofKey k))).2.perform j (.cas (.ofKey k) v options)
      c.server.down = false → c.server.failNext = 0 → c.clients[j]? = some client →
      client.tokens.enabled = true → Operation.keyOf client.config (.ofKey k) = .ok k →
      Operation.encodedOf client.config v options = .ok e →
      (c.perform j (.gets (.ofKey k))).1 = some (.ok found) →
      out.1 = some (.ok true) ∧ out.2.server.raw? k = some (e.data, e.flags.bits) := by
  intro h
  let k : Key := ⟨[107], List.cons_ne_nil _ _, List.forall_mem_singleton.2 rfl⟩
  let config : Config := { rememberTokens := true }
  let events : List Event :=
    [.act 0 (.perform (.store .set (.ofKey k) (.raw [97]) {})),
      .act 0 (.perform (.gets (.ofKey k))), .act 0 (.perform (.delete (.ofKey k)))]
  let c := (run events (ofConfigs (withVersion "1") [config])).2
  obtain ⟨client, hclient⟩ : ∃ client, c.clients[0]? = some client :=
    Option.isSome_iff_exists.1 (by decide +kernel)
  have hstate : c.clients[0]?.map (fun x => (x.config, x.tokens.enabled)) =
      some (config, true) := by decide +kernel
  rw [hclient, Option.map_some, Option.some.injEq, Prod.mk.injEq] at hstate
  obtain ⟨hconfig, henabled⟩ := hstate
  have hk : Operation.keyOf client.config (.ofKey k) = .ok k := by
    rw [hconfig]
    decide +kernel
  have he : Operation.encodedOf client.config (.raw [98]) {} = .ok ⟨.plain .raw, [98]⟩ := by
    rw [hconfig]
    decide +kernel
  have hgets : (c.perform 0 (.gets (.ofKey k))).1 = some (.ok none) := by decide +kernel
  have hrefused : ((c.perform 0 (.gets (.ofKey k))).2.perform 0
      (.cas (.ofKey k) (.raw [98]) {})).1 = some (.ok false) := by decide +kernel
  have hok := (h "1" [config] events 0 client k (.raw [98]) {} ⟨.plain .raw, [98]⟩ none
    (by decide +kernel) (by decide +kernel) hclient henabled hk he hgets).1
  cases hrefused.symm.trans hok

end Cluster

end CacheClient
