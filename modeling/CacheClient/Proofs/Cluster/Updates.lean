import CacheClient.Proofs.Cluster
import CacheClient.Proofs.Codec
import CacheClient.Proofs.Server.Tokens
import Mathlib.Logic.Function.Basic
import Mathlib.Logic.Relation

/-!
# No update is lost

Clients that share a server update the value of one key: each reads it with its token, and later
stores what a function makes of the value it read, on condition that the item still has the
token. Whatever else they do keeps off the key, and the server may fail in every way it can.

A **story** (`Story`) is a cluster together with what the argument is about: the value that each
client's last successful read gave, and the updates that succeeded so far. The invariant
(`Story.Inv`) says that the item under the key holds the value that the successful updates make
of the first one, and that a client which remembers the item's token has read that value. An
update through any other token is refused, because a token that was given out before an item was
written is not the item's.

Main result: `no_lost_update`.
-/

namespace CacheClient

open Server

namespace Client

/-! ## Reading and updating a key -/

/-- A read of a key either brings nothing, or the value of its item and the item's token. -/
theorem perform_gets {k : Key} {i : Cache.Entry} {v : Value} {c : Client SessionId} {s : Server}
    (hi : s.cache.items[k]? = some i) (hlive : i.isExpired s.now = false) (hne : i.data ≠ [])
    (hv : Codec.decode i.data i.flags = .ok v) :
    let out := c.perform Server.network (.gets (.ofKey k)) s
    Spares k s out.2.2 ∧
      ((out.2.1.tokens = c.tokens ∧ ∀ w, out.1 ≠ .ok (some w)) ∨
        out.1 = .ok (some v) ∧ out.2.1.tokens = c.tokens.remember k i.token) := by
  intro out
  have hp : Performed _ c s out.1 out.2.1 out.2.2 := performed (.gets (.ofKey k)) c s
  generalize out = out at hp
  obtain ⟨result, c', s'⟩ := out
  have hcommand : ∀ {command},
      Operation.command c.config c.tokens.get? (.gets (.ofKey k)) = .ok (some command) →
        command = .gets k := by
    intro command h
    cases Operation.denotes_of_command h with
    | gets hk => rw [Operation.eq_of_keyOf_ofKey_eq_ok hk]
  have hdisturbs : ∀ response, ¬Exchange.Disturbs k ⟨.gets k, response⟩ :=
    Exchange.not_disturbs_gets k k
  cases hp with
  | invalid h => exact ⟨.refl k _, .inl ⟨rfl, by simp⟩⟩
  | void h => exact ⟨.refl k _, .inl ⟨rfl, by simp [Operation.miss]⟩⟩
  | failed h hs hr =>
    refine ⟨hs.spares k, .inl ⟨rfl, ?_⟩⟩
    intro w hw
    rw [hr] at hw
    split at hw <;> cases hw
  | refused h hs =>
    obtain rfl := hcommand h
    exact ⟨.of_some hs.moves (hdisturbs _), .inl ⟨rfl, by simp⟩⟩
  | answered h hs ha =>
    obtain rfl := hcommand h
    obtain rfl := hs.read rfl
    refine ⟨.of_some hs.moves (hdisturbs _), .inr ?_⟩
    rw [Cache.live?_eq_some_iff.2 ⟨hi, hlive⟩] at ha ⊢
    obtain rfl := Option.some.inj ha
    refine ⟨?_, rfl⟩
    simp [Operation.hit?, Operation.valueOf, Cache.Entry.shown, hne, hv, Except.map]

/-- An update of a key through a token does not succeed and leaves the item alone, or the token
is the item's and the item is replaced. -/
theorem perform_cas {k : Key} {i : Cache.Entry} {token : Token} {c : Client SessionId}
    {s : Server} (htoken : c.tokens.get? k = some token) (hi : s.cache.items[k]? = some i)
    (hlive : i.isExpired s.now = false) (v : Value) (options : StoreSettings) :
    let out := c.perform Server.network (.cas (.ofKey k) v options) s
    out.2.1.tokens = c.tokens ∧
      ((out.1 ≠ .ok true ∧ Spares k s out.2.2) ∨
        out.1 = .ok true ∧ token = i.token ∧ ∃ x, Moves s (some x) out.2.2 ∧
          x.written? = some k ∧
          out.2.2.cache.items[k]? =
            some ⟨(Codec.pack v options.threshold).data,
              (Codec.pack v options.threshold).flags.bits, s.cache.lastToken + 1,
              Cache.deadline s.now options.ttl⟩) := by
  intro out
  have hp : Performed _ c s out.1 out.2.1 out.2.2 :=
    performed (.cas (.ofKey k) v options) c s
  generalize out = out at hp
  obtain ⟨result, c', s'⟩ := out
  have hcommand : ∀ {command},
      Operation.command c.config c.tokens.get? (.cas (.ofKey k) v options) = .ok (some command) →
        command = .cas k (Codec.pack v options.threshold).data token options.ttl
          (Codec.pack v options.threshold).flags.bits := by
    intro command h
    cases Operation.denotes_of_command h with
    | cas hk hs ht =>
      obtain rfl := Operation.eq_of_keyOf_ofKey_eq_ok hk
      obtain rfl := Codec.eq_pack_of_encode_eq_ok hs
      rw [htoken] at ht
      cases ht
      rfl
    | casPlain hk hs ht =>
      obtain rfl := Operation.eq_of_keyOf_ofKey_eq_ok hk
      rw [htoken] at ht
      cases ht
  cases hp with
  | invalid h => exact ⟨rfl, .inl ⟨by simp, .refl k _⟩⟩
  | void h => exact ⟨rfl, .inl ⟨by simp [Operation.miss], .refl k _⟩⟩
  | failed h hs hr =>
    refine ⟨rfl, .inl ⟨?_, hs.spares k⟩⟩
    intro hw
    rw [hr] at hw
    split at hw <;> cases hw
  | refused h hs =>
    obtain rfl := hcommand h
    refine ⟨rfl, .inl ⟨by simp, .of_some hs.moves (Exchange.not_disturbs_cas ?_)⟩⟩
    simp
  | answered h hs ha =>
    obtain rfl := hcommand h
    have hanswer := hs.moves.answer_of_cas rfl
    rw [Cache.live?_eq_some_iff.2 ⟨hi, hlive⟩, Option.elim_some] at hanswer
    subst hanswer
    obtain rfl := Option.some.inj ha
    refine ⟨rfl, ?_⟩
    by_cases hsame : i.token = token
    · rw [if_pos hsame] at hs ⊢
      exact .inr ⟨rfl, hsame.symm, _, hs.moves, rfl, hs.cas_stored⟩
    · rw [if_neg hsame] at hs ⊢
      refine .inl ⟨by simp [StoreOutcome.isStored], .of_some hs.moves ?_⟩
      refine Exchange.not_disturbs_cas ?_
      simp

end Client

/-! ## Stories -/

/-- A cluster whose clients update the value of a key, and what has happened so far. -/
structure Story where
  cluster : Cluster
  /-- The value that each client's last successful read gave. -/
  seen : Nat → Option Value
  /-- The updates that succeeded, in their order. -/
  done : List (Value → Value)
  /-- The number of tokens that the server has given out. -/
  issued : Nat

namespace Story

/-- The items and tokens of the server. -/
def cache (a : Story) : Cache := a.cluster.server.cache

/-- The value that the successful updates make of the first one. -/
def value (v₀ : Value) (a : Story) : Value := a.done.foldl (fun v f => f v) v₀

/-- Let something happen. -/
def happen (e : Cluster.Event) (a : Story) : Story :=
  let cluster := (Cluster.step e a.cluster).2
  let isIssued : Bool := cluster.server.cache.lastToken ≠ a.cache.lastToken
  { a with cluster, issued := a.issued + isIssued.toNat }

/-- What an operation of a client gives, if there is such a client. -/
def resultOf (j : Nat) (op : Operation) (a : Story) : Option (Except Error op.Answer) :=
  (a.cluster.perform j op).1

/-- A client reads the key, with its token. -/
def read (k : Key) (j : Nat) (a : Story) : Story :=
  { a.happen (.act j (.perform (.gets (.ofKey k)))) with
    seen := match a.resultOf j (.gets (.ofKey k)) with
      | some (.ok (some v)) => Function.update a.seen j (some v)
      | _ => a.seen }

/-- A client stores what a function makes of a value, if the item has the token that the client
remembers. -/
def update (k : Key) (j : Nat) (f : Value → Value) (threshold : Nat) (v : Value) (a : Story) :
    Story :=
  { a.happen (.act j (.perform (.cas (.ofKey k) (f v) ⟨0, threshold⟩))) with
    done :=
      if a.resultOf j (.cas (.ofKey k) (f v) ⟨0, threshold⟩) = some (.ok true) then a.done ++ [f]
      else a.done }

/-- What may come next: a client reads the key, a client updates the key from the value that its
last successful read gave, or something happens that keeps off the key. -/
inductive Turn (k : Key) (a : Story) : Story → Prop
  | read (j : Nat) : Turn k a (a.read k j)
  | update {j : Nat} {v : Value} (f : Value → Value) (threshold : Nat) (hseen : a.seen j = some v)
      (hne : (f v).payload ≠ []) (hlen : (f v).payload.length < Bytes.span 4) :
      Turn k a (a.update k j f threshold v)
  | aside {e : Cluster.Event} (he : e.KeepsOff k) : Turn k a (a.happen e)

/-- How a story starts: with a server that has come to hold an item under the key which does not
expire, is not empty and decodes to `v₀`, and with clients that remember tokens. -/
structure Starts (k : Key) (v₀ : Value) (a : Story) : Prop where
  server : ∃ version events, a.cluster.server = Server.run events (withVersion version) ∧
    a.issued = Server.issued events (withVersion version)
  item : ∃ i, a.cache.items[k]? = some i ∧ i.deadline = none ∧ i.data ≠ [] ∧
    Codec.decode i.data i.flags = .ok v₀
  clients : ∀ {j : Nat} {c : Client SessionId},
    a.cluster.clients[j]? = some c → c.tokens.enabled = true
  seen : ∀ j, a.seen j = none
  done : a.done = []

/-! ## The invariant -/

/-- The item under the key holds the value that the successful updates make of the first one,
and a client that remembers its token has read that value. -/
structure Inv (k : Key) (v₀ : Value) (i : Cache.Entry) (a : Story) : Prop where
  item : a.cache.items[k]? = some i
  deadline : i.deadline = none
  nonempty : i.data ≠ []
  decodes : Codec.decode i.data i.flags = .ok (a.value v₀)
  token_le : i.token ≤ a.cache.lastToken
  issued : a.cache.lastToken.toNat = a.issued
  enabled : ∀ {j : Nat} {c : Client SessionId},
    a.cluster.clients[j]? = some c → c.tokens.enabled = true
  seen : ∀ {j : Nat} {c : Client SessionId} {v : Value},
    a.cluster.clients[j]? = some c → a.seen j = some v →
    ∃ t, c.tokens.get? k = some t ∧ t ≤ a.cache.lastToken ∧ (t = i.token → v = a.value v₀)

variable {k : Key} {v₀ : Value} {i : Cache.Entry} {a b : Story} {e : Cluster.Event}

theorem Inv.isLive (h : Inv k v₀ i a) (now : Nat) : i.isExpired now = false := by
  rw [Cache.Entry.isExpired, h.deadline]

theorem lastToken_happen {x? : Option Exchange} (h : a.cache.lastToken.toNat = a.issued)
    (hmoves : Moves a.cluster.server x? (a.happen e).cluster.server)
    (hlast : (a.happen e).issued < UInt64.size) :
    (a.happen e).cache.lastToken.toNat = (a.happen e).issued ∧
      a.cache.lastToken ≤ (a.happen e).cache.lastToken := by
  have hissued : (a.happen e).issued =
      a.issued + (decide ((a.happen e).cache.lastToken ≠ a.cache.lastToken)).toNat := rfl
  rw [hissued, ← h] at hlast ⊢
  have htoken := hmoves.toNat_lastToken hlast
  refine ⟨htoken, UInt64.le_iff_toNat_le.2 ?_⟩
  rw [show (a.happen e).cache.lastToken.toNat = _ from htoken]
  exact Nat.le_add_right ..

/-! ## Steps keep the invariant -/

theorem Inv.happen (h : Inv k v₀ i a) (hlast : (a.happen e).issued < UInt64.size)
    (hcalm : Cluster.Calm k a.cluster (a.happen e).cluster) : Inv k v₀ i (a.happen e) := by
  obtain ⟨x?, hmoves⟩ := hcalm.spares.moves
  obtain ⟨hissued, hle⟩ := lastToken_happen h.issued hmoves hlast
  refine ⟨hcalm.spares.item_stays h.item (h.isLive _), h.deadline, h.nonempty, h.decodes,
    UInt64.le_trans h.token_le hle, hissued, ?_, ?_⟩
  · intro j c' hc'
    obtain ⟨c, hc, henabled, -⟩ := hcalm.clients hc'
    exact henabled (h.enabled hc)
  · intro j c' v hc' hv
    obtain ⟨c, hc, -, htoken⟩ := hcalm.clients hc'
    obtain ⟨t, ht, htle, hread⟩ := h.seen hc hv
    exact ⟨t, htoken.trans ht, UInt64.le_trans htle hle, hread⟩

section

variable {j : Nat} {c c' : Client SessionId}

/-- After a client read the value, and now remembers the token of the item. -/
theorem Inv.of_read (h : Inv k v₀ i a) (hc : a.cluster.clients[j]? = some c)
    (hspares : Spares k a.cluster.server b.cluster.server)
    (hclients : ∀ j', b.cluster.clients[j']? =
      if j = j' then some c' else a.cluster.clients[j']?)
    (htokens : c'.tokens = c.tokens.remember k i.token)
    (hseen : b.seen = Function.update a.seen j (some (a.value v₀))) (hdone : b.done = a.done)
    (hissued : b.cache.lastToken.toNat = b.issued) (hle : a.cache.lastToken ≤ b.cache.lastToken) :
    Inv k v₀ i b := by
  have hvalue : b.value v₀ = a.value v₀ := by rw [value, hdone, value]
  have henabled : c.tokens.enabled = true := h.enabled hc
  refine ⟨hspares.item_stays h.item (h.isLive _), h.deadline, h.nonempty, hvalue ▸ h.decodes,
    UInt64.le_trans h.token_le hle, hissued, ?_, ?_⟩
  · intro j' y hy
    rw [hclients] at hy
    by_cases hj : j = j'
    · rw [if_pos hj] at hy
      cases hy
      rw [htokens, TokenRegistry.enabled_remember]
      exact henabled
    · rw [if_neg hj] at hy
      exact h.enabled hy
  · intro j' y v hy hv
    rw [hclients] at hy
    rw [hseen] at hv
    rw [hvalue]
    by_cases hj : j = j'
    · rw [if_pos hj] at hy
      cases hy
      subst hj
      rw [Function.update_self] at hv
      cases hv
      refine ⟨i.token, ?_, UInt64.le_trans h.token_le hle, fun _ => rfl⟩
      rw [htokens, TokenRegistry.get?_remember, if_pos ⟨henabled, rfl⟩]
    · rw [if_neg hj] at hy
      rw [Function.update_of_ne (Ne.symm hj)] at hv
      obtain ⟨t, ht, htle, hread⟩ := h.seen hy hv
      exact ⟨t, ht, UInt64.le_trans htle hle, hread⟩

/-- After a client replaced the item by what a function makes of its value. No client remembers
the token of the new item. -/
theorem Inv.of_update (h : Inv k v₀ i a) {x : Exchange}
    (hmoves : Moves a.cluster.server (some x) b.cluster.server) (hw : x.written? = some k)
    (hclients : ∀ j', b.cluster.clients[j']? =
      if j = j' then some c' else a.cluster.clients[j']?)
    (hc : a.cluster.clients[j]? = some c) (htokens : c'.tokens = c.tokens)
    {f : Value → Value} {threshold : Nat} (hne : (f (a.value v₀)).payload ≠ [])
    (hlen : (f (a.value v₀)).payload.length < Bytes.span 4)
    (hitem : b.cache.items[k]? = some ⟨(Codec.pack (f (a.value v₀)) threshold).data,
      (Codec.pack (f (a.value v₀)) threshold).flags.bits, a.cache.lastToken + 1, none⟩)
    (hseen : b.seen = a.seen) (hdone : b.done = a.done ++ [f])
    (hissued : b.cache.lastToken.toNat = b.issued) (hle : a.cache.lastToken ≤ b.cache.lastToken) :
    ∃ i', Inv k v₀ i' b := by
  have hvalue : b.value v₀ = f (a.value v₀) := by
    rw [value, hdone, List.foldl_append, value]
    rfl
  have hnext : b.cache.lastToken = a.cache.lastToken + 1 := ((hmoves.effect rfl).written hw).1
  refine ⟨_, hitem, rfl, Codec.data_pack_ne_nil hne threshold, ?_, ?_, hissued, ?_, ?_⟩
  · rw [hvalue]
    exact Codec.decode_pack_bits hlen threshold
  · rw [hnext]
    exact UInt64.le_refl _
  · intro j' y hy
    rw [hclients] at hy
    by_cases hj : j = j'
    · rw [if_pos hj] at hy
      cases hy
      rw [htokens]
      exact h.enabled hc
    · rw [if_neg hj] at hy
      exact h.enabled hy
  · intro j' y v hy hv
    have hold : ∃ t, y.tokens.get? k = some t ∧ t ≤ a.cache.lastToken := by
      rw [hclients] at hy
      rw [hseen] at hv
      by_cases hj : j = j'
      · rw [if_pos hj] at hy
        cases hy
        obtain ⟨t, ht, htle, -⟩ := h.seen hc (hj ▸ hv)
        exact ⟨t, (congrArg (fun r => r.get? k) htokens).trans ht, htle⟩
      · rw [if_neg hj] at hy
        obtain ⟨t, ht, htle, -⟩ := h.seen hy hv
        exact ⟨t, ht, htle⟩
    obtain ⟨t, ht, htle⟩ := hold
    exact ⟨t, ht, UInt64.le_trans htle hle, fun heq => absurd heq (Moves.ne_next hle hnext htle)⟩

end

theorem happen_of_none {j : Nat} (hc : a.cluster.clients[j]? = none) (op : Operation) :
    a.resultOf j op = none ∧ (a.happen (.act j (.perform op))).cluster = a.cluster :=
  have hstep := Cluster.step_act_of_none hc (.perform op)
  ⟨congrArg Prod.fst hstep, congrArg Prod.snd hstep⟩

theorem resultOf_eq_some {j : Nat} {c : Client SessionId} (hc : a.cluster.clients[j]? = some c)
    (op : Operation) :
    a.resultOf j op = some (c.perform Server.network op a.cluster.server).1 :=
  Cluster.result_step_act hc (.perform op)

theorem Inv.read (h : Inv k v₀ i a) (j : Nat) (hlast : (a.read k j).issued < UInt64.size) :
    Inv k v₀ i (a.read k j) := by
  cases hc : a.cluster.clients[j]? with
  | none =>
    obtain ⟨hresult, hcluster⟩ := happen_of_none hc (.gets (.ofKey k))
    rw [Story.read, hresult] at hlast ⊢
    exact h.happen hlast (by rw [hcluster]; exact .refl k _)
  | some c =>
    have hresult := resultOf_eq_some hc (.gets (.ofKey k))
    obtain ⟨hspares, ⟨htokens, hnot⟩ | ⟨hok, htokens⟩⟩ :=
      Client.perform_gets (c := c) h.item (h.isLive _) h.nonempty h.decodes
    · -- nothing was read
      have hread : a.read k j = a.happen (.act j (.perform (.gets (.ofKey k)))) := by
        rw [Story.read, hresult]
        split
        · next w hw => exact absurd (Option.some.inj hw) (hnot w)
        · rfl
      rw [hread] at hlast ⊢
      exact h.happen hlast (Cluster.calm_step_act hc (.of_tokens_eq hspares htokens))
    · have hspares : Spares k a.cluster.server (a.read k j).cluster.server :=
        Cluster.server_step_act hc (.perform (.gets (.ofKey k))) ▸ hspares
      obtain ⟨x?, hmoves⟩ := hspares.moves
      obtain ⟨hissued, hle⟩ := lastToken_happen h.issued hmoves hlast
      refine h.of_read hc hspares (Cluster.clients_step_act hc _) htokens ?_ rfl hissued hle
      show (a.read k j).seen = _
      rw [Story.read, hresult, hok]

theorem Inv.update (h : Inv k v₀ i a) {j : Nat} {v : Value} (f : Value → Value)
    (threshold : Nat) (hseen : a.seen j = some v) (hne : (f v).payload ≠ [])
    (hlen : (f v).payload.length < Bytes.span 4)
    (hlast : (a.update k j f threshold v).issued < UInt64.size) :
    ∃ i', Inv k v₀ i' (a.update k j f threshold v) := by
  cases hc : a.cluster.clients[j]? with
  | none =>
    obtain ⟨hresult, hcluster⟩ := happen_of_none hc (.cas (.ofKey k) (f v) ⟨0, threshold⟩)
    rw [Story.update, hresult, if_neg (by simp)] at hlast ⊢
    exact ⟨i, h.happen hlast (by rw [hcluster]; exact .refl k _)⟩
  | some c =>
    obtain ⟨t, ht, htle, hread⟩ := h.seen hc hseen
    have hresult := resultOf_eq_some hc (.cas (.ofKey k) (f v) ⟨0, threshold⟩)
    obtain ⟨htokens, ⟨hnot, hspares⟩ | ⟨hok, htoken, x, hmoves, hw, hitem⟩⟩ :=
      Client.perform_cas ht h.item (h.isLive _) (f v) ⟨0, threshold⟩
    · -- the update was refused or failed
      rw [Story.update, hresult, if_neg fun h => hnot (Option.some.inj h)] at hlast ⊢
      exact ⟨i, h.happen hlast (Cluster.calm_step_act hc (.of_tokens_eq hspares htokens))⟩
    · obtain rfl := hread htoken
      have hserver := Cluster.server_step_act hc
        (.perform (.cas (.ofKey k) (f (a.value v₀)) ⟨0, threshold⟩))
      have hmoves : Moves a.cluster.server (some x)
          (a.update k j f threshold (a.value v₀)).cluster.server := hserver ▸ hmoves
      obtain ⟨hissued, hle⟩ := lastToken_happen h.issued hmoves hlast
      have hdone : (a.update k j f threshold (a.value v₀)).done = a.done ++ [f] := by
        rw [Story.update, hresult, if_pos (congrArg some hok)]
      have hitem : (a.update k j f threshold (a.value v₀)).cache.items[k]? =
          some ⟨(Codec.pack (f (a.value v₀)) threshold).data,
            (Codec.pack (f (a.value v₀)) threshold).flags.bits, a.cache.lastToken + 1, none⟩ := by
        rw [cache, show (a.update k j f threshold (a.value v₀)).cluster.server = _ from hserver]
        exact hitem
      exact h.of_update hmoves hw (Cluster.clients_step_act hc _) hc htokens hne hlen hitem rfl
        hdone hissued hle

theorem Inv.turn (h : Inv k v₀ i a) (hturn : Turn k a b) (hlast : b.issued < UInt64.size) :
    ∃ i', Inv k v₀ i' b := by
  cases hturn with
  | read j => exact ⟨i, h.read j hlast⟩
  | update f threshold hseen hne hlen => exact h.update f threshold hseen hne hlen hlast
  | aside he => exact ⟨i, h.happen hlast (Cluster.calm_step he _)⟩

/-! ## Stories keep the invariant -/

theorem Starts.inv (h : Starts k v₀ a) (hlast : a.issued < UInt64.size) :
    ∃ i, Inv k v₀ i a := by
  obtain ⟨version, events, hserver, hissued⟩ := h.server
  obtain ⟨i, hitem, hdeadline, hne, hdecodes⟩ := h.item
  rw [hissued] at hlast
  have hcount : a.cache.lastToken.toNat = a.issued := by
    rw [cache, hserver, hissued]
    exact toNat_lastToken_run_withVersion hlast
  have hfit : a.cache.TokensFit := by
    rw [cache, hserver]
    exact tokensFit_run (tokensLast_withVersion hlast) (tokensFit_withVersion version)
  refine ⟨i, hitem, hdeadline, hne, ?_, hfit.le_lastToken hitem, hcount, h.clients, ?_⟩
  · rw [value, h.done]
    exact hdecodes
  · intro j c v hc hv
    rw [h.seen] at hv
    cases hv

theorem issued_le_of_turn (h : Turn k a b) : a.issued ≤ b.issued := by
  cases h <;> exact Nat.le_add_right ..

/-- **No update is lost.** Let a server hold a value under a key, in an item that is not empty
and does not expire, and let clients that remember tokens read the key and update it from what
they read, in any order, while they do whatever else keeps off the key and the server fails and
comes back. Then at every moment the key holds the value that the updates which reported success
make of the first one, in the order in which they did. -/
theorem no_lost_update (hstart : Starts k v₀ a) (hstory : Relation.ReflTransGen (Turn k) a b)
    (hlast : b.issued < UInt64.size) :
    ∃ i, b.cluster.server.cache.live? b.cluster.server.now k = some i ∧
      Codec.decode i.data i.flags = .ok (b.done.foldl (fun v f => f v) v₀) := by
  have hinv : ∃ i, Inv k v₀ i b := by
    induction hstory with
    | refl => exact hstart.inv hlast
    | tail _ hturn ih =>
      obtain ⟨i, hi⟩ := ih (Nat.lt_of_le_of_lt (issued_le_of_turn hturn) hlast)
      exact hi.turn hturn hlast
  obtain ⟨i, hi⟩ := hinv
  exact ⟨i, Cache.live?_eq_some_iff.2 ⟨hi.item, hi.isLive _⟩, hi.decodes⟩

/-- Two clients append to a value. The second one is refused, loses its session, reads again and
then succeeds. -/
theorem no_lost_update_contended :
    let k : Key := ⟨[107], List.cons_ne_nil _ _, List.forall_mem_singleton.2 rfl⟩
    let f : Value → Value := fun v => .raw (v.payload ++ [2])
    let g : Value → Value := fun v => .raw (v.payload ++ [3])
    let client : Client SessionId := .ofConfig { rememberTokens := true }
    let server := Server.run
      [.openSession "", .connect 0, .execute 0 (.store .set k [1] 0 0)] (withVersion "1")
    let a : Story := ⟨⟨server, #[client, client]⟩, fun _ => none, [], 1⟩
    let both := (a.read k 0).read k 1
    let refused := (both.update k 0 f 0 (.raw [1])).update k 1 g 0 (.raw [1])
    let again := (refused.happen (.control .killConnections)).read k 1
    let b := again.update k 1 g 0 (.raw [1, 2])
    Starts k (.raw [1]) a ∧ Relation.ReflTransGen (Turn k) a b ∧ b.issued < UInt64.size ∧
      refused.done.length = 1 ∧ b.done.length = 2 ∧
      ∃ i, b.cluster.server.cache.live? b.cluster.server.now k = some i ∧
        Codec.decode i.data i.flags = .ok (.raw [1, 2, 3]) := by
  intro k f g client server a both refused again b
  have hstart : Starts k (.raw [1]) a :=
    { server := ⟨"1", _, rfl, by decide +kernel⟩
      item := ⟨⟨[1], 0, 1, none⟩, by decide +kernel, rfl, by decide, by decide +kernel⟩
      clients := fun {j c} h => by
        have hmem : c ∈ #[client, client] := Array.mem_of_getElem? h
        have hc : c = client := by simpa using hmem
        rw [hc]
        rfl
      seen := fun _ => rfl
      done := rfl }
  have hstory : Relation.ReflTransGen (Turn k) a b := by
    have hboth : Relation.ReflTransGen (Turn k) a both :=
      .tail (.single (.read 0)) (.read 1)
    have hfirst : Turn k both (both.update k 0 f 0 (.raw [1])) :=
      .update f 0 (by decide +kernel) (by decide) (by decide)
    have hsecond : Turn k (both.update k 0 f 0 (.raw [1])) refused :=
      .update g 0 (by decide +kernel) (by decide) (by decide)
    have hkill : Turn k refused (refused.happen (.control .killConnections)) := .aside trivial
    have hthird : Turn k again b := .update g 0 (by decide +kernel) (by decide) (by decide)
    exact ((((hboth.tail hfirst).tail hsecond).tail hkill).tail (.read 1)).tail hthird
  have hlast : b.issued < UInt64.size := by decide +kernel
  obtain ⟨i, hi, hdecodes⟩ := no_lost_update hstart hstory hlast
  have hvalue : b.done.foldl (fun v f => f v) (.raw [1]) = .raw [1, 2, 3] := by decide +kernel
  rw [hvalue] at hdecodes
  exact ⟨hstart, hstory, hlast, by decide +kernel, by decide +kernel, i, hi, hdecodes⟩

end Story

end CacheClient
