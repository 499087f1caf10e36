import CacheClient.Proofs.Client.Mirrors
import CacheClient.Proofs.Cluster.History
import CacheClient.Proofs.Server.Tokens

/-!
# Clients on different keys do not see each other

A client that shares a server with others, none of whom names a key that it names or removes
everything, might as well be alone. If the actions of the others are left out of a run, each of its
own has the same result.

The clients draw their tokens from one counter, so that the runs with and without the others hold
different tokens from the first difference on. The invariant is therefore no equality of states. It
says that the client sees the same on both sides (`Client.Alike`), with sessions in order on each
(`Shadow`):

* what it does itself, it does on both sides (`shadow_self`);
* what others do happens on the one side only, and is not seen (`shadow_other`);
* time passes on both sides (`shadow_control`).

Main result: `disjoint_clients_invisible`.
-/

namespace CacheClient

open Server

/-- A control that ends sessions, or makes calls fail. -/
def Server.Control.isFault : Server.Control → Bool
  | .setDown down => down
  | .killConnections => true
  | .failNext n => 0 < n
  | .clearHistory | .advance _ => false

namespace Cluster

/-! ## Counting tokens -/

/-- A step gives out a token. -/
def issues (e : Event) (c : Cluster) : Bool :=
  (step e c).2.server.cache.lastToken ≠ c.server.cache.lastToken

/-- The number of tokens that a run gives out. -/
def issued : List Event → Cluster → Nat
  | [], _ => 0
  | e :: events, c => (issues e c).toNat + issued events (step e c).2

/-- The tokens do not run out during a run. -/
def TokensLast (events : List Event) (c : Cluster) : Prop :=
  c.server.cache.lastToken.toNat + issued events c < UInt64.size

section

variable {e : Event} {events : List Event} {c : Cluster}

theorem toNat_lastToken_step (hlast : TokensLast (e :: events) c) :
    (step e c).2.server.cache.lastToken.toNat =
      c.server.cache.lastToken.toNat + (issues e c).toNat := by
  rw [TokensLast, issued, issues] at hlast
  rw [issues]
  exact (moves_step e c).toNat_lastToken (by omega)

theorem lastToken_le_step (hlast : TokensLast (e :: events) c) :
    c.server.cache.lastToken ≤ (step e c).2.server.cache.lastToken := by
  rw [UInt64.le_iff_toNat_le, toNat_lastToken_step hlast]
  exact Nat.le_add_right ..

theorem TokensLast.tail (hlast : TokensLast (e :: events) c) :
    TokensLast events (step e c).2 := by
  rw [TokensLast, toNat_lastToken_step hlast, Nat.add_assoc]
  exact hlast

end

/-! ## Sessions of clients -/

/-- The server is available, and each client has a session of its own or none. -/
structure Settled (c : Cluster) : Prop where
  available : c.server.obstacle? = none
  seated : ∀ {j : Nat} {x : Client SessionId}, c.clients[j]? = some x →
    x.connection.Seated c.server
  apart : ∀ {i j : Nat} {x y : Client SessionId}, i ≠ j → c.clients[i]? = some x →
    c.clients[j]? = some y → x.connection.Strangers y.connection

theorem getElem?_ofConfigs (s : Server) (configs : List Config) (j : Nat) :
    (ofConfigs s configs).clients[j]? = configs[j]?.map Client.ofConfig := by
  rw [ofConfigs, List.getElem?_toArray, List.getElem?_map]

theorem settled_ofConfigs {s : Server} (h : s.obstacle? = none) (configs : List Config) :
    (ofConfigs s configs).Settled where
  available := h
  seated {j x} hx := by
    rw [getElem?_ofConfigs] at hx
    obtain ⟨config, -, rfl⟩ := Option.map_eq_some_iff.1 hx
    exact .away rfl rfl
  apart {i j x y} _ hx _ := by
    rw [getElem?_ofConfigs] at hx
    obtain ⟨config, -, rfl⟩ := Option.map_eq_some_iff.1 hx
    rintro id ⟨⟩

variable {c d : Cluster} {A i j : Nat} {own : Key → Prop} {a : Client.Action} {e : Event}
  {events : List Event}

theorem Settled.act (h : c.Settled) (i : Nat) (a : Client.Action) :
    (step (.act i a) c).2.Settled := by
  cases hi : c.clients[i]? with
  | none =>
    rw [step_act_of_none hi]
    exact h
  | some x =>
    have hvisit := Client.visit_act (h.seated hi) h.available a
    refine ⟨?_, ?_, ?_⟩
    · rw [server_step_act hi]
      exact hvisit.available
    · intro j y hy
      rw [server_step_act hi]
      rw [clients_step_act hi] at hy
      by_cases hij : i = j
      · rw [if_pos hij] at hy
        cases hy
        exact hvisit.handled.seated
      · rw [if_neg hij] at hy
        exact hvisit.handled.seated_other (h.seated hy) (h.apart hij hi hy)
    · -- the client that acts is one of the two, or neither
      intro j l y z hjl hy hz
      rw [clients_step_act hi] at hy hz
      by_cases hij : i = j
      · rw [if_pos hij] at hy
        rw [if_neg fun hil => hjl (hij.symm.trans hil)] at hz
        cases hy
        exact hvisit.handled.strangers (h.seated hz) (h.apart (hij ▸ hjl) hi hz)
      · rw [if_neg hij] at hy
        by_cases hil : i = l
        · rw [if_pos hil] at hz
          cases hz
          exact (hvisit.handled.strangers (h.seated hy) (h.apart hij hi hy)).symm
        · rw [if_neg hil] at hz
          exact h.apart hjl hy hz

theorem Settled.control (h : c.Settled) {x : Control} (hx : x.isFault = false) :
    (step (.control x) c).2.Settled := by
  obtain ⟨hup, hfail⟩ := obstacle?_eq_none_iff.1 h.available
  have hsame : ∀ id, (c.server.control x).isConnected id = c.server.isConnected id := by
    intro id
    cases x with
    | setDown down =>
      obtain rfl : down = false := hx
      rw [isConnected, isConnected, hup]
      rfl
    | killConnections => cases hx
    | _ => rfl
  have havailable : (c.server.control x).obstacle? = none := by
    cases x with
    | setDown down => exact obstacle?_eq_none_iff.2 ⟨hx, hfail⟩
    | killConnections => cases hx
    | failNext n =>
      have hn : n = 0 := Nat.eq_zero_of_not_pos (of_decide_eq_false hx)
      exact obstacle?_eq_none_iff.2 ⟨hup, hn⟩
    | _ => exact h.available
  exact ⟨havailable, fun hy => (h.seated hy).congr hsame, h.apart⟩

/-! ## With and without the others -/

/-- The client `A` sees the same in both clusters, as long as it sticks to certain keys. -/
structure Shadow (A : Nat) (own : Key → Prop) (c d : Cluster) : Prop where
  settled : c.Settled
  settled' : d.Settled
  client : ∃ x y, c.clients[A]? = some x ∧ d.clients[A]? = some y ∧
    Client.Alike own x c.server y d.server

/-- An event in a run in which the client `A` sticks to certain keys and the others stay away from
them. -/
structure Event.Respects (A : Nat) (own : Key → Prop) (e : Event) : Prop where
  control : ∀ x, e = .control x → x.isFault = false
  self : ∀ op, e = .act A (.perform op) → op ≠ .stats ∧ ∀ k, .ofKey k ∈ op.sources → own k
  others : ∀ j op, j ≠ A → e = .act j (.perform op) →
    op ≠ .flushAll ∧ ∀ k, own k → .ofKey k ∉ op.sources

/-- The event is no action of a client other than `A`. -/
def Event.concerns (A : Nat) : Event → Bool
  | .act j _ => j = A
  | .control _ => true

/-- What the client does has the same result on both sides. -/
theorem shadow_self (h : Shadow A own c d) (he : (Event.act A a).Respects A own)
    (hle : c.server.cache.lastToken ≤ (step (.act A a) c).2.server.cache.lastToken) :
    (step (.act A a) c).1 = (step (.act A a) d).1 ∧
      Shadow A own (step (.act A a) c).2 (step (.act A a) d).2 := by
  obtain ⟨x, y, hx, hy, halike⟩ := h.client
  rw [server_step_act hx] at hle
  have ha : ∀ op, a = .perform op → op ≠ .stats ∧ ∀ k, .ofKey k ∈ op.sources → own k := by
    rintro op rfl
    exact he.self op rfl
  obtain ⟨hresult, hafter⟩ := Client.alike_act halike (h.settled.seated hx) (h.settled'.seated hy)
    h.settled.available h.settled'.available ha hle
  have hx' : (step (.act A a) c).2.clients[A]? = some (x.act Server.network a c.server).2.1 := by
    rw [clients_step_act hx, if_pos rfl]
  have hy' : (step (.act A a) d).2.clients[A]? = some (y.act Server.network a d.server).2.1 := by
    rw [clients_step_act hy, if_pos rfl]
  refine ⟨?_, h.settled.act A a, h.settled'.act A a, _, _, hx', hy', ?_⟩
  · rw [result_step_act hx, result_step_act hy, hresult]
  · rw [server_step_act hx, server_step_act hy]
    exact hafter

/-- What another client does is not seen. -/
theorem shadow_other (h : Shadow A own c d) (hj : j ≠ A) (he : (Event.act j a).Respects A own)
    (hle : c.server.cache.lastToken ≤ (step (.act j a) c).2.server.cache.lastToken) :
    Shadow A own (step (.act j a) c).2 d := by
  obtain ⟨x, y, hx, hy, halike⟩ := h.client
  cases hz : c.clients[j]? with
  | none =>
    rw [step_act_of_none hz]
    exact h
  | some z =>
    have hvisit := Client.visit_act (h.settled.seated hz) h.settled.available a
    have hitems : ∀ k, own k → (step (.act j a) c).2.server.cache.items[k]? =
        c.server.cache.items[k]? := by
      intro k hk
      rw [server_step_act hz]
      apply Client.getElem?_items_act
      rintro op rfl
      obtain ⟨hflush, hkeys⟩ := he.others j op hj rfl
      exact ⟨hflush, hkeys k hk⟩
    refine ⟨h.settled.act j a, h.settled', x, y, ?_, hy, ?_⟩
    · rw [clients_step_act hz, if_neg hj]
      exact hx
    · rw [server_step_act hz] at hle hitems ⊢
      exact Client.alike_of_apart halike hitems hle hvisit.now hvisit.version

theorem shadow_control (h : Shadow A own c d) {x : Control} (hx : x.isFault = false) :
    Shadow A own (step (.control x) c).2 (step (.control x) d).2 := by
  obtain ⟨y, z, hy, hz, halike⟩ := h.client
  refine ⟨h.settled.control hx, h.settled'.control hx, y, z, hy, hz, ?_⟩
  cases x with
  | advance ms => exact { halike with now := congrArg (· + ms) halike.now }
  | killConnections => cases hx
  | _ => exact { halike with }

/-- **With and without the others**, a run gives the same results as far as they concern the
client, which sees the same afterwards. -/
theorem shadow_run (h : Shadow A own c d) (hevents : ∀ e ∈ events, e.Respects A own)
    (hlast : TokensLast events c) :
    (run events c).1.filter (fun r => r.1.concerns A) =
        (run (events.filter (Event.concerns A)) d).1 ∧
      Shadow A own (run events c).2 (run (events.filter (Event.concerns A)) d).2 := by
  induction events generalizing c d with
  | nil => exact ⟨rfl, h⟩
  | cons e events ih =>
    have he := hevents e (List.mem_cons_self ..)
    have htail : ∀ e ∈ events, e.Respects A own :=
      fun e he => hevents e (List.mem_cons_of_mem _ he)
    have hle := lastToken_le_step hlast
    -- an event that concerns the client happens on both sides, any other on the first only
    have hboth : e.concerns A = true → (step e c).1 = (step e d).1 ∧
        Shadow A own (step e c).2 (step e d).2 := by
      intro hconcerns
      cases e with
      | control x => exact ⟨rfl, shadow_control h (he.control x rfl)⟩
      | act j a =>
        obtain rfl : j = A := of_decide_eq_true hconcerns
        exact shadow_self h he hle
    have hfirst : e.concerns A = false → Shadow A own (step e c).2 d := by
      intro hconcerns
      cases e with
      | control x => cases hconcerns
      | act j a => exact shadow_other h (of_decide_eq_false hconcerns) he hle
    cases hconcerns : e.concerns A with
    | true =>
      obtain ⟨hresult, hshadow⟩ := hboth hconcerns
      obtain ⟨hresults, hafter⟩ := ih hshadow htail hlast.tail
      simp only [run_cons, List.filter_cons, hconcerns, if_true, hresults, hresult, true_and]
      exact hafter
    | false =>
      obtain ⟨hresults, hafter⟩ := ih (hfirst hconcerns) htail hlast.tail
      simp only [run_cons, List.filter_cons, hconcerns, Bool.false_eq_true, if_false]
      exact ⟨hresults, hafter⟩

/-! ## Runs from the start -/

/-- The client names a key in one of its operations. -/
def Names (A : Nat) (events : List Event) (k : Key) : Prop :=
  ∃ op, .act A (.perform op) ∈ events ∧ .ofKey k ∈ op.sources

theorem shadow_ofConfigs {s : Server} (hs : s.obstacle? = none)
    (hitems : ∀ k : Key, s.cache.items[k]? = none) {configs : List Config}
    (hA : A < configs.length) (own : Key → Prop) :
    Shadow A own (ofConfigs s configs) (ofConfigs s configs) := by
  have hsettled := settled_ofConfigs hs configs
  have hclient : (ofConfigs s configs).clients[A]? = some (.ofConfig configs[A]) := by
    rw [getElem?_ofConfigs, List.getElem?_eq_getElem hA, Option.map_some]
  have hnone := Client.get?_tokens_ofConfig (τ := SessionId) configs[A]
  have hmirrors : Cache.Mirrors own (Client.ofConfig configs[A] : Client SessionId).tokens.get?
      (Client.ofConfig configs[A] : Client SessionId).tokens.get? s.cache s.cache := by
    refine ⟨UInt64.le_refl _, fun k _ => ?_⟩
    rw [hitems, hnone]
    exact ⟨rfl, rfl, by simp, by simp, by simp, by simp, by simp⟩
  exact ⟨hsettled, hsettled, _, _, hclient, hclient, rfl, rfl, rfl,
    fun k _ => ⟨hnone k, hnone k⟩, hmirrors, rfl, rfl⟩

/-- **Clients on different keys do not see each other.** Take a run without faults, during which
the tokens do not run out, and a client that does not ask for statistics. If no other client names a
key that it names, or removes everything, then nothing changes for it when the actions of the others
are left out:

* each of its actions has the same result;
* its connection counts as connected or not, as before;
* the same keys have tokens;
* under each key that it names, the server has the same bytes, flags and deadline. -/
theorem disjoint_clients_invisible {version : String} {configs : List Config}
    {events : List Event} {A : Nat} (hA : A < configs.length)
    (hfaults : ∀ x, .control x ∈ events → x.isFault = false)
    (htokens : issued events (ofConfigs (withVersion version) configs) < UInt64.size)
    (hstats : .act A (.perform .stats) ∉ events)
    (hflush : ∀ j, j ≠ A → .act j (.perform .flushAll) ∉ events)
    (hkeys : ∀ j op k, j ≠ A → .act j (.perform op) ∈ events → .ofKey k ∈ op.sources →
      ¬Names A events k) :
    let full := run events (ofConfigs (withVersion version) configs)
    let alone := run (events.filter (Event.concerns A)) (ofConfigs (withVersion version) configs)
    full.1.filter (fun r => r.1.concerns A) = alone.1 ∧
      ∃ x y, full.2.clients[A]? = some x ∧ alone.2.clients[A]? = some y ∧
        x.connection.state = y.connection.state ∧
        (∀ source, (x.token? source).isSome = (y.token? source).isSome) ∧
        ∀ k, Names A events k → full.2.server.cache.items[k]?.map Cache.Entry.content =
          alone.2.server.cache.items[k]?.map Cache.Entry.content := by
  have hevents : ∀ e ∈ events, e.Respects A (Names A events) := by
    intro e he
    refine ⟨?_, ?_, ?_⟩
    · rintro x rfl
      exact hfaults x he
    · rintro op rfl
      refine ⟨?_, fun k hk => ⟨op, he, hk⟩⟩
      rintro rfl
      exact hstats he
    · rintro j op hj rfl
      refine ⟨?_, fun k hnames hk => hkeys j op k hj he hk hnames⟩
      rintro rfl
      exact hflush j hj he
  have hlast : TokensLast events (ofConfigs (withVersion version) configs) := by
    show (0 : UInt64).toNat + _ < UInt64.size
    rwa [UInt64.toNat_zero, Nat.zero_add]
  obtain ⟨hresults, hshadow⟩ :=
    shadow_run (shadow_ofConfigs rfl (getElem?_items_withVersion version) hA (Names A events))
      hevents hlast
  obtain ⟨x, y, hx, hy, halike⟩ := hshadow.client
  refine ⟨hresults, x, y, hx, hy, halike.state, halike.isSome_token?, ?_⟩
  intro k hk
  exact (halike.mirrors.twin k hk).content

/-- The other client stores first, so that the item of the client has another token than it would
have without. The conditional store succeeds all the same. -/
theorem disjoint_clients_invisible_tokens :
    let k : Key := ⟨[107], List.cons_ne_nil _ _, List.forall_mem_singleton.2 rfl⟩
    let l : Key := ⟨[108], List.cons_ne_nil _ _, List.forall_mem_singleton.2 rfl⟩
    let config : Config := { rememberTokens := true }
    let start := ofConfigs (withVersion "1") [config, config]
    let events : List Event :=
      [.act 1 (.perform (.store .set (.ofKey l) (.raw [97]) {})),
        .act 0 (.perform (.store .set (.ofKey k) (.raw [98]) ⟨60, 0⟩)),
        .act 0 (.perform (.gets (.ofKey k))), .control (.advance 1000),
        .act 1 (.perform (.delete (.ofKey l))),
        .act 0 (.perform (.cas (.ofKey k) (.raw [99]) {}))]
    let full := run events start
    let alone := run (events.filter (Event.concerns 0)) start
    full.1.filter (fun r => r.1.concerns 0) = alone.1 ∧
      full.2.server.cache.items[k]?.map Cache.Entry.token = some 3 ∧
      alone.2.server.cache.items[k]?.map Cache.Entry.token = some 2 := by
  intro k l config start events full alone
  have hdisjoint : ∀ j op a, j ≠ 0 → .act j (.perform op) ∈ events → .ofKey a ∈ op.sources →
      ¬Names 0 events a := by
    rintro j op a hj hop ha ⟨op', hop', ha'⟩
    have hl : a = l := by
      simp only [events, List.mem_cons, Event.act.injEq, List.not_mem_nil, reduceCtorEq,
        Client.Action.perform.injEq, hj, false_and, false_or, or_false] at hop
      rcases hop with ⟨-, rfl⟩ | ⟨-, rfl⟩ <;>
        exact Key.Source.ofKey_inj (List.mem_singleton.1 ha)
    have hk : a = k := by
      simp only [events, List.mem_cons, Event.act.injEq, List.not_mem_nil, reduceCtorEq,
        Client.Action.perform.injEq, Nat.zero_ne_one, false_and, false_or, or_false,
        true_and] at hop'
      rcases hop' with rfl | rfl | rfl <;>
        exact Key.Source.ofKey_inj (List.mem_singleton.1 ha')
    exact absurd (hl.symm.trans hk) (by decide)
  refine ⟨(disjoint_clients_invisible (by decide) ?_ ?_ ?_ ?_ hdisjoint).1, ?_, ?_⟩
  · simp [events, Control.isFault]
  · decide +kernel
  · simp [events]
  · simp [events]
  · decide +kernel
  · decide +kernel

end Cluster

end CacheClient
