import CacheClient.Proofs.Client.Availability
import CacheClient.Proofs.Cluster.History
import CacheClient.Proofs.Codec.Numbers
import Mathlib.Data.List.Basic

/-!
# Counting

A counter is an item that shows a number. Incrementing wraps around at 2⁶⁴ and decrementing stops
at zero (`Change.value`); the numbers that a run of such changes passes through are
`Change.numbers`.

The proof follows a run event by event with the number that the item shows. A call that counts is
carried out, since faults are left out and the clients that count accept the key; it answers with
the next number and leaves the shortest numeral for it in the place of the old payload
(`step_call`). Whatever else happens leaves the item as it is (`step_aside`). Flags and deadline
are those of the first item throughout, and no deadline passes before that of the last state.

Main result: `counts_in_order`.
-/

namespace CacheClient

open Server

/-! ## Changes -/

/-- A change of a counter. -/
inductive Change where
  | up (amount : UInt64)
  | down (amount : UInt64)
deriving DecidableEq

namespace Change

/-- The number after a change, which has 64 bits and no sign. -/
def value : Change → Nat → Nat
  | up amount, n => (n + amount.toNat) % 2 ^ 64
  | down amount, n => n - amount.toNat

/-- The numbers after each of several changes. -/
def numbers (n : Nat) : List Change → List Nat
  | [] => []
  | change :: changes => change.value n :: numbers (change.value n) changes

/-- The operation that asks for a change. -/
def operation (k : Key) : Change → Operation
  | up amount => .incr (.ofKey k) amount
  | down amount => .decr (.ofKey k) amount

/-- The command that makes it. -/
def command (k : Key) : Change → Command
  | up amount => .incr k amount
  | down amount => .decr k amount

/-- What the server makes of its word. -/
def apply : Change → UInt64 → UInt64
  | up amount, n => n + amount
  | down amount, n => Cache.lower amount n

theorem command_operation (change : Change) {config : Config} {k : Key}
    (hk : Operation.keyOf config (.ofKey k) = .ok k) (token? : Key → Option Token) :
    (change.operation k).command config token? = .ok (some (change.command k)) := by
  cases change with
  | up amount => exact (Operation.Denotes.incr hk amount).command_eq rfl
  | down amount => exact (Operation.Denotes.decr hk amount).command_eq rfl

theorem toNat_apply (change : Change) (n : UInt64) :
    (change.apply n).toNat = change.value n.toNat := by
  cases change with
  | up amount => exact UInt64.toNat_add n amount
  | down amount =>
    show (Cache.lower amount n).toNat = n.toNat - amount.toNat
    rw [Cache.lower]
    split
    · next h => exact (Nat.sub_eq_zero_of_le (UInt64.le_iff_toNat_le.1 h)).symm
    · next h =>
      refine UInt64.toNat_sub_of_le _ _ ?_
      exact UInt64.le_of_lt (UInt64.not_le.1 h)

end Change

/-- A command that changes the number of a live item answers with the next one, and leaves it in
the place of the payload. -/
theorem Server.Moves.counts {s s' : Server} {k : Key} {change : Change} {response : Response}
    {i : Cache.Entry} {n : UInt64} (h : Moves s (some ⟨change.command k, response⟩) s')
    (hi : s.cache.live? s.now k = some i) (hn : Cache.counter? i.data = some n) :
    response = .counter (some (change.apply n)) ∧ ∃ token, s'.cache.items[k]? =
      some { i with data := Cache.showCounter (change.apply n), token } := by
  obtain ⟨connections, hresponse, hcache⟩ := h.carried rfl
  have hi : ({ s.cache with connections } : Cache).live? s.now k = some i := hi
  rw [show response = _ from hresponse, hcache]
  cases change with
  | up amount =>
    obtain ⟨hcounter, hitem⟩ := Cache.count_of_live (· + amount) hi hn
    exact ⟨hcounter, _, hitem⟩
  | down amount =>
    obtain ⟨hcounter, hitem⟩ := Cache.count_of_live (Cache.lower amount) hi hn
    exact ⟨hcounter, _, hitem⟩

/-! ## Servers without faults -/

theorem Client.available_act {s : Server} (hup : s.down = false) (hfail : s.failNext = 0)
    (a : Action) (c : Client SessionId) :
    (c.act Server.network a s).2.2.down = false ∧ (c.act Server.network a s).2.2.failNext = 0 := by
  have hquiet {s' : Server} (h : Quiet s s') : s'.down = false ∧ s'.failNext = 0 :=
    ⟨h.down.trans hup, h.failNext_eq.trans hfail⟩
  have hcarried {x : Exchange} {s' : Server} (h : Carried s x s') :
      s'.down = false ∧ s'.failNext = 0 :=
    ⟨h.frame.2.1.trans hup, h.frame.2.2.trans hfail⟩
  cases a with
  | perform op =>
    show (c.perform Server.network op s).2.2.down = false ∧
      (c.perform Server.network op s).2.2.failNext = 0
    cases h : op.command c.config c.tokens.get? with
    | error e =>
      rw [perform, h]
      exact ⟨hup, hfail⟩
    | ok command? =>
      cases command? with
      | none =>
        rw [perform, h]
        exact ⟨hup, hfail⟩
      | some command =>
        obtain ⟨response, connection, s', hs, ⟨text, -, hperform⟩ | ⟨answer, -, hperform⟩⟩ :=
          perform_of_available h hup hfail
        · rw [hperform]
          exact hcarried hs
        · rw [hperform]
          exact hcarried hs
  | connect reconnect => exact hquiet (quiet_connect reconnect c s)
  | close => exact hquiet (Connection.quiet_close c.connection s)
  | isConnected => exact hquiet (quiet_isConnected c s)
  | setRemembering on => exact ⟨hup, hfail⟩
  | resetTokens => exact ⟨hup, hfail⟩

namespace Cluster

/-- The event makes commands fail: it takes the server down or orders timeouts. -/
def Event.faults : Event → Bool
  | .control (.setDown down) => down
  | .control (.failNext n) => 0 < n
  | _ => false

/-- There is such a client, and it accepts the key. -/
def Accepts (c : Cluster) (k : Key) (j : Nat) : Prop :=
  ∃ client, c.clients[j]? = some client ∧ Operation.keyOf client.config (.ofKey k) = .ok k

variable {c : Cluster} {e : Event} {events : List Event} {k : Key} {i : Cache.Entry} {j : Nat}

theorem available_step (he : e.faults = false) (hup : c.server.down = false)
    (hfail : c.server.failNext = 0) :
    (step e c).2.server.down = false ∧ (step e c).2.server.failNext = 0 := by
  cases e with
  | control x =>
    cases x with
    | setDown down => exact ⟨he, hfail⟩
    | failNext n =>
      have hn : n = 0 := by simpa [Event.faults] using he
      exact ⟨hup, hn⟩
    | _ => exact ⟨hup, hfail⟩
  | act i a =>
    cases hi : c.clients[i]? with
    | none =>
      rw [step_act_of_none hi]
      exact ⟨hup, hfail⟩
    | some client =>
      rw [server_step_act hi]
      exact Client.available_act hup hfail a client

/-- Settings do not change, so keys stay accepted. -/
theorem Accepts.step (h : c.Accepts k j) (e : Event) : (step e c).2.Accepts k j := by
  obtain ⟨client, hclient, hk⟩ := h
  cases e with
  | control x => exact ⟨client, hclient, hk⟩
  | act i a =>
    cases hi : c.clients[i]? with
    | none =>
      rw [step_act_of_none hi]
      exact ⟨client, hclient, hk⟩
    | some x =>
      rw [Accepts, clients_step_act hi]
      by_cases hij : i = j
      · subst hij
        cases hi.symm.trans hclient
        refine ⟨_, if_pos rfl, ?_⟩
        rwa [Client.config_act]
      · exact ⟨client, (if_neg hij).trans hclient, hk⟩

theorem now_le_run (events : List Event) (c : Cluster) :
    c.server.now ≤ (run events c).2.server.now := by
  induction events generalizing c with
  | nil => exact Nat.le_refl _
  | cons e events ih => exact Nat.le_trans (moves_step e c).now_le (ih _)

/-! ## Calls -/

/-- The change that an event makes to the number of a key if it is an operation that counts, with
its result, if there is such a client. -/
def Event.call? (k : Key) :
    (Σ e : Event, e.Result) → Option (Change × Option (Except Error (Option UInt64)))
  | ⟨.act _ (.perform (.incr source amount)), result⟩ =>
    if source = .ofKey k then some (.up amount, result) else none
  | ⟨.act _ (.perform (.decr source amount)), result⟩ =>
    if source = .ofKey k then some (.down amount, result) else none
  | _ => none

/-- The calls of a run that count with a key, in their order. -/
def calls (k : Key) (results : List (Σ e : Event, e.Result)) :
    List (Change × Option (Except Error (Option UInt64))) :=
  results.filterMap (Event.call? k)

theorem Event.call?_cases (k : Key) (e : Event) :
    (∃ j, ∃ change : Change, e = .act j (.perform (change.operation k))) ∨
      ∀ r, call? k ⟨e, r⟩ = none := by
  cases e with
  | control x => exact .inr fun r => rfl
  | act j a =>
    cases a with
    | perform op =>
      cases op with
      | incr source amount =>
        by_cases h : source = .ofKey k
        · exact .inl ⟨j, .up amount, by rw [h]; rfl⟩
        · exact .inr fun r => if_neg h
      | decr source amount =>
        by_cases h : source = .ofKey k
        · exact .inl ⟨j, .down amount, by rw [h]; rfl⟩
        · exact .inr fun r => if_neg h
      | _ => exact .inr fun r => rfl
    | _ => exact .inr fun r => rfl

/-- **A call that counts** answers with the next number, which the item shows from then on. -/
theorem step_call {change : Change} {n : UInt64} (hup : c.server.down = false)
    (hfail : c.server.failNext = 0) (haccepts : c.Accepts k j)
    (hi : c.server.cache.live? c.server.now k = some i) (hn : Cache.counter? i.data = some n) :
    let e : Event := .act j (.perform (change.operation k))
    Event.call? k ⟨e, (step e c).1⟩ = some (change, some (.ok (some (change.apply n)))) ∧
      ∃ token, (step e c).2.server.cache.items[k]? =
        some { i with data := Cache.showCounter (change.apply n), token } := by
  intro e
  obtain ⟨client, hclient, hk⟩ := haccepts
  have hcommand := change.command_operation hk client.tokens.get?
  obtain ⟨x, hx⟩ := Option.ne_none_iff_exists'.1 (exchange_of_available hup hfail hclient hcommand)
  have hmoves := moves_step e c
  rw [hx] at hmoves
  obtain ⟨client', result, hclient', -, hanswered⟩ := answered_of_exchange hx
  cases hclient.symm.trans hclient'
  obtain ⟨command, response⟩ := x
  cases hcommand.symm.trans hanswered.command
  obtain ⟨rfl, hitem⟩ := hmoves.counts hi hn
  refine ⟨?_, hitem⟩
  cases change with
  | up amount =>
    have hresult : (step e c).1 = some (.ok (some (n + amount))) := result_of_exchange hx rfl
    rw [hresult]
    exact if_pos rfl
  | down amount =>
    have hresult : (step e c).1 = some (.ok (some (Cache.lower amount n))) :=
      result_of_exchange hx rfl
    rw [hresult]
    exact if_pos rfl

theorem call?_ne_none_of_disturbs {x : Exchange} (hx : exchange? e c = some x)
    (hd : x.Disturbs k) (hcount : x.command.verb = .incr ∨ x.command.verb = .decr) :
    ∃ r, Event.call? k ⟨e, r⟩ ≠ none := by
  obtain ⟨j, op, rfl⟩ := eq_perform_of_exchange hx
  obtain ⟨client, result, -, -, hanswered⟩ := answered_of_exchange hx
  have hkey : k ∈ x.command.keys := by
    rcases Exchange.mem_keys_of_disturbs hd with hmem | hall
    · exact hmem
    · rw [hall] at hcount
      rcases hcount with h | h <;> cases h
  have hdenotes := Operation.denotes_of_command hanswered.command
  generalize x.command = command at hcount hkey hdenotes
  cases hdenotes with
  | incr hk amount =>
    obtain rfl := Operation.eq_ofKey_of_keyOf_eq_ok hk
    obtain rfl := List.mem_singleton.1 hkey
    exact ⟨none, by simp [Event.call?]⟩
  | decr hk amount =>
    obtain rfl := Operation.eq_ofKey_of_keyOf_eq_ok hk
    obtain rfl := List.mem_singleton.1 hkey
    exact ⟨none, by simp [Event.call?]⟩
  | _ => rcases hcount with h | h <;> cases h

/-- Whatever else happens leaves the item as it is, if nothing else writes it. -/
theorem step_aside (haside : ∀ r, Event.call? k ⟨e, r⟩ = none)
    (hcounts : ∀ x, exchange? e c = some x → x.Disturbs k →
      x.command.verb = .incr ∨ x.command.verb = .decr)
    (hi : c.server.cache.live? c.server.now k = some i) :
    (step e c).2.server.cache.items[k]? = some i := by
  have hspares : Spares k c.server (step e c).2.server := by
    refine ⟨_, moves_step e c, ?_⟩
    intro x hx hd
    obtain ⟨r, hr⟩ := call?_ne_none_of_disturbs hx hd (hcounts x hx hd)
    exact hr (haside r)
  obtain ⟨hitem, hlive⟩ := Cache.live?_eq_some_iff.1 hi
  exact hspares.item_stays hitem hlive

/-! ## Runs -/

/-- The outcome of a run that counts with the item `i`, which shows `n`: every call has answered
with the next number, and the item shows the last one. -/
def Counted (k : Key) (i : Cache.Entry) (n : Nat)
    (calls : List (Change × Option (Except Error (Option UInt64)))) (s : Server) : Prop :=
  ∃ numbers : List UInt64,
    numbers.map UInt64.toNat = Change.numbers n (calls.map Prod.fst) ∧
    calls.map Prod.snd = numbers.map (fun m => some (.ok (some m))) ∧
    ∃ token, s.cache.items[k]? =
      some { i with data := numbers.getLast?.elim i.data Cache.showCounter, token }

theorem Counted.cons {n : UInt64} {change : Change} {token : Token} {s : Server}
    {calls : List (Change × Option (Except Error (Option UInt64)))}
    (h : Counted k { i with data := Cache.showCounter (change.apply n), token }
      (change.apply n).toNat calls s) :
    Counted k i n.toNat ((change, some (.ok (some (change.apply n)))) :: calls) s := by
  obtain ⟨numbers, hnumbers, hanswers, token', hitem⟩ := h
  refine ⟨change.apply n :: numbers, ?_, ?_, token', ?_⟩
  · rw [List.map_cons, hnumbers, change.toNat_apply]
    rfl
  · rw [List.map_cons, hanswers, List.map_cons]
  · rw [hitem]
    cases numbers with
    | nil => rfl
    | cons m numbers => simp [List.getLast?_cons]

theorem counted_run {n : UInt64} (hup : c.server.down = false) (hfail : c.server.failNext = 0)
    (hfaults : ∀ e ∈ events, e.faults = false)
    (haccepts : ∀ j, ∀ change : Change,
      .act j (.perform (change.operation k)) ∈ events → c.Accepts k j)
    (hcounts : ∀ x ∈ history events c, x.Disturbs k →
      x.command.verb = .incr ∨ x.command.verb = .decr)
    (hitem : c.server.cache.items[k]? = some i) (hn : Cache.counter? i.data = some n)
    (hlive : i.isExpired (run events c).2.server.now = false) :
    Counted k i n.toNat (calls k (run events c).1) (run events c).2.server := by
  induction events generalizing c i n with
  | nil => exact ⟨[], rfl, rfl, i.token, hitem⟩
  | cons e events ih =>
    rw [run_cons] at hlive ⊢
    have hnow : c.server.now ≤ (run events (step e c).2).2.server.now :=
      Nat.le_trans (moves_step e c).now_le (now_le_run events _)
    have hi : c.server.cache.live? c.server.now k = some i := by
      refine Cache.live?_eq_some_iff.2 ⟨hitem, ?_⟩
      by_contra hexpired
      rw [Cache.Entry.isExpired_mono hnow (Bool.of_not_eq_false hexpired)] at hlive
      cases hlive
    obtain ⟨hup', hfail'⟩ := available_step (hfaults e List.mem_cons_self) hup hfail
    have hrest {i' : Cache.Entry} {n' : UInt64}
        (hitem' : (step e c).2.server.cache.items[k]? = some i')
        (hn' : Cache.counter? i'.data = some n')
        (hlive' : i'.isExpired (run events (step e c).2).2.server.now = false) :=
      ih hup' hfail' (fun e he => hfaults e (List.mem_cons_of_mem _ he))
        (fun j change he => (haccepts j change (List.mem_cons_of_mem _ he)).step e)
        (fun x hx => hcounts x (List.mem_append_right _ hx)) hitem' hn' hlive'
    rw [calls, List.filterMap_cons, ← calls]
    rcases Event.call?_cases k e with ⟨j, change, rfl⟩ | haside
    · obtain ⟨hcall, token, hitem'⟩ :=
        step_call hup hfail (haccepts j change List.mem_cons_self) hi hn
      rw [hcall]
      exact (hrest hitem' (Cache.counter?_showCounter _) hlive).cons
    · rw [haside]
      refine hrest (step_aside haside ?_ hi) hn hlive
      intro x hx
      exact hcounts x (by simp [history, hx])

theorem readsAs_of_get {n : UInt64} {token : Token} (hup : c.server.down = false)
    (hfail : c.server.failNext = 0) (haccepts : c.Accepts k j)
    (hplain : Flags.hasBit i.flags Flags.compressedBit = false)
    (hi : c.server.cache.live? c.server.now k =
      some { i with data := Cache.showCounter n, token }) :
    ∃ result, (c.perform j (.get (.ofKey k))).1 = some (result.map some) ∧
      Codec.ReadsAs n result (Flags.ofBits i.flags).encoding := by
  obtain ⟨client, hclient, hk⟩ := haccepts
  have hx := exchange_of_available hup hfail hclient ((Operation.Denotes.get hk).command_eq rfl)
  have hunpack : Codec.unpack (Cache.showCounter n) i.flags = .ok (Cache.showCounter n) :=
    if_neg (by simp [hplain])
  refine ⟨Codec.interpret (Flags.ofBits i.flags).encoding (Cache.showCounter n), ?_,
    Codec.interpret_showCounter _ n⟩
  rw [result_of_get hx, hi, Option.map_some, Operation.hit?_shown,
    if_neg (Cache.showCounter_ne_nil n), Codec.decode_of_unpack_eq_ok hunpack]

theorem available_run (hfaults : ∀ e ∈ events, e.faults = false) (hup : c.server.down = false)
    (hfail : c.server.failNext = 0) :
    (run events c).2.server.down = false ∧ (run events c).2.server.failNext = 0 := by
  induction events generalizing c with
  | nil => exact ⟨hup, hfail⟩
  | cons e events ih =>
    obtain ⟨hup, hfail⟩ := available_step (hfaults e List.mem_cons_self) hup hfail
    exact ih (fun e he => hfaults e (List.mem_cons_of_mem _ he)) hup hfail

theorem Accepts.run (h : c.Accepts k j) (events : List Event) : (run events c).2.Accepts k j := by
  induction events generalizing c with
  | nil => exact h
  | cons e events ih => exact ih (h.step e)

/-- **Counting goes number by number.** Let a server without faults hold a live item whose flags
are not those of packed bytes and whose payload shows an unsigned word, and let clients that accept
its key count with it, up and down by whatever amounts, while nothing else writes the item and its
deadline has not passed. Then every call answers with the next number. Flags and deadline of the
item stay, and after the last call it shows the last number, which a client that accepts the key
reads as the flags say: as a number or as its digits, and as a type error if they promise a signed
word and it is too large for one. -/
theorem counts_in_order {n₀ : Nat} (hup : c.server.down = false) (hfail : c.server.failNext = 0)
    (hitem : c.server.cache.live? c.server.now k = some i)
    (hplain : Flags.hasBit i.flags Flags.compressedBit = false)
    (hshows : Cache.ShowsNatural i.data n₀) (hn₀ : n₀ < 2 ^ 64)
    (hfaults : ∀ e ∈ events, e.faults = false)
    (haccepts : ∀ j, ∀ change : Change,
      .act j (.perform (change.operation k)) ∈ events → c.Accepts k j)
    (hcounts : ∀ x ∈ history events c, x.Disturbs k →
      x.command.verb = .incr ∨ x.command.verb = .decr)
    (hlive : i.isExpired (run events c).2.server.now = false) :
    let calls := calls k (run events c).1
    let after := (run events c).2
    ∃ numbers : List UInt64,
      numbers.map UInt64.toNat = Change.numbers n₀ (calls.map Prod.fst) ∧
      calls.map Prod.snd = numbers.map (fun m => some (.ok (some m))) ∧
      ∀ n, numbers.getLast? = some n →
        (∃ token, after.server.cache.live? after.server.now k =
          some ⟨Cache.showCounter n, i.flags, token, i.deadline⟩) ∧
        ∀ j, c.Accepts k j → ∃ result,
          (after.perform j (.get (.ofKey k))).1 = some (result.map some) ∧
            Codec.ReadsAs n result (Flags.ofBits i.flags).encoding := by
  intro calls after
  have hword : (UInt64.ofNat n₀).toNat = n₀ := by
    rw [UInt64.toNat_ofNat', Nat.mod_eq_of_lt hn₀]
  have hn : Cache.counter? i.data = some (UInt64.ofNat n₀) := by
    rw [Cache.counter?_eq_some_iff, hword]
    exact hshows
  obtain ⟨numbers, hnumbers, hanswers, token, hlast⟩ :=
    counted_run hup hfail hfaults haccepts hcounts (Cache.live?_eq_some_iff.1 hitem).1 hn hlive
  rw [hword] at hnumbers
  refine ⟨numbers, hnumbers, hanswers, ?_⟩
  intro n hn
  rw [hn, Option.elim_some] at hlast
  have hafter : after.server.cache.live? after.server.now k =
      some { i with data := Cache.showCounter n, token } :=
    Cache.live?_eq_some_iff.2 ⟨hlast, hlive⟩
  obtain ⟨hup, hfail⟩ := available_run hfaults hup hfail
  exact ⟨⟨token, hafter⟩, fun j hj => readsAs_of_get hup hfail (hj.run events) hplain hafter⟩

/-- A padded counter below 2⁶⁴ wraps around, stops at zero and becomes too large for the signed word
that its flags promise, in calls of two clients of which one has lost its session. -/
theorem counts_in_order_wrapping :
    let k : Key := ⟨[107], List.cons_ne_nil _ _, List.forall_mem_singleton.2 rfl⟩
    let i : Cache.Entry := ⟨Utf8.ofString " +018446744073709551614\n", 2, 1, some 5000⟩
    let c : Cluster :=
      ⟨{ cache := { items := (∅ : KeyMap Cache.Entry).insert k i, lastToken := 1 } },
        #[Client.ofConfig {}, Client.ofConfig {}]⟩
    let events : List Event :=
      [.act 0 (.perform (.incr (.ofKey k) 3)), .control .killConnections,
        .act 1 (.perform (.store .add (.ofKey k) (.raw [49]) {})),
        .act 0 (.perform (.decr (.ofKey k) 5)), .control (.advance 4999),
        .act 1 (.perform (.incr (.ofKey k) 0x8000000000000000))]
    let after := (run events c).2
    (history events c).length = 4 ∧
      (calls k (run events c).1).map Prod.fst = [.up 3, .down 5, .up 0x8000000000000000] ∧
      (calls k (run events c).1).map Prod.snd =
        [some (.ok (some 1)), some (.ok (some 0)), some (.ok (some 0x8000000000000000))] ∧
      (∃ token, after.server.cache.live? after.server.now k =
        some ⟨Cache.showCounter 0x8000000000000000, 2, token, some 5000⟩) ∧
      ∃ cause, (after.perform 0 (.get (.ofKey k))).1 = some (.error (.type cause)) := by
  intro k i c events after
  have hshows : Cache.ShowsNatural i.data 0xFFFFFFFFFFFFFFFE :=
    Cache.counter?_eq_some_iff.1
      (show Cache.counter? i.data = some 0xFFFFFFFFFFFFFFFE by decide +kernel)
  have hfaults : ∀ e ∈ events, e.faults = false := by simp [events, Event.faults]
  have hall : ∀ j < 2, c.Accepts k j := by
    intro j hj
    refine ⟨Client.ofConfig {}, ?_, by decide +kernel⟩
    interval_cases j <;> rfl
  have haccepts : ∀ j, ∀ change : Change,
      .act j (.perform (change.operation k)) ∈ events → c.Accepts k j := by
    intro j change he
    refine hall j ?_
    simp only [events, List.mem_cons, Event.act.injEq, reduceCtorEq, List.not_mem_nil, or_false,
      false_or] at he
    rcases he with ⟨rfl, -⟩ | ⟨rfl, -⟩ | ⟨rfl, -⟩ | ⟨rfl, -⟩ <;> decide
  have hcounts : ∀ x ∈ history events c, x.Disturbs k →
      x.command.verb = .incr ∨ x.command.verb = .decr := by decide +kernel
  have hchanges : (calls k (run events c).1).map Prod.fst =
      [.up 3, .down 5, .up 0x8000000000000000] := by decide +kernel
  have hup : c.server.down = false := rfl
  have hfail : c.server.failNext = 0 := rfl
  have hitem : c.server.cache.live? c.server.now k = some i := by decide +kernel
  have hnow : i.isExpired (run events c).2.server.now = false := by decide +kernel
  have hlength : (history events c).length = 4 := by decide +kernel
  clear_value c events
  obtain ⟨numbers, hnumbers, hanswers, hlast⟩ :=
    counts_in_order hup hfail hitem (by decide) hshows (by decide) hfaults haccepts hcounts hnow
  rw [hchanges] at hnumbers
  have hnumbers : numbers = [1, 0, 0x8000000000000000] := by
    refine List.map_injective_iff.2 (fun a b => UInt64.toNat_inj.1) ?_
    rw [hnumbers]
    rfl
  subst hnumbers
  obtain ⟨hcounter, hread⟩ := hlast 0x8000000000000000 rfl
  obtain ⟨result, hget, hreads⟩ := hread 0 (hall 0 (by decide))
  have hint : (Flags.ofBits i.flags).encoding = .int := by decide
  rw [hint, Codec.ReadsAs, if_neg (by decide)] at hreads
  obtain ⟨cause, rfl⟩ := hreads
  exact ⟨hlength, hchanges, hanswers, hcounter, cause, hget⟩

end Cluster

end CacheClient
