import CacheClient.Proofs.Server.History

/-!
# What commands write

An exchange that writes an item replaces the live item of its key, joins bytes to it, or counts.
`Cache.Writes` lists these ways with the item that comes of each, and `writes_apply` says that
there are no others. What is put in place of an item can be told from the exchange alone
(`Exchange.put?`).
-/

namespace CacheClient

/-- The store joins its bytes to an item instead of replacing it. -/
def StoreMode.joins : StoreMode → Bool
  | .append | .prepend => true
  | .set | .add | .replace => false

/-- The bytes of an item after a store, given those before it and those of the store. -/
def StoreMode.join : StoreMode → Bytes → Bytes → Bytes
  | .append, old, new => old ++ new
  | .prepend, old, new => new ++ old
  | .set, _, new | .add, _, new | .replace, _, new => new

namespace Cache

/-- The ways in which an exchange writes an item with the next token in the place of the live
one, if there is one. What is put there has a deadline of its own, its time to live being in seconds
and 0 without end. -/
inductive Writes (now : Nat) (token : Token) : Exchange → Option Entry → Entry → Prop
  | put {mode k data ttl flags live?} (hmode : mode.joins = false) :
      Writes now token ⟨.store mode k data ttl flags, .store .stored⟩ live?
        ⟨data, flags, token, if ttl = 0 then none else some (now + 1000 * ttl.toNat)⟩
  | cas {k data expected ttl flags live?} :
      Writes now token ⟨.cas k data expected ttl flags, .store .stored⟩ live?
        ⟨data, flags, token, if ttl = 0 then none else some (now + 1000 * ttl.toNat)⟩
  | join {mode k data ttl flags i} (hmode : mode.joins = true) :
      Writes now token ⟨.store mode k data ttl flags, .store .stored⟩ (some i)
        { i with data := mode.join i.data data, token }
  | incr {k amount i n} (hn : counter? i.data = some n) :
      Writes now token ⟨.incr k amount, .counter (some (n + amount))⟩ (some i)
        { i with data := showCounter (n + amount), token }
  | decr {k amount i n} (hn : counter? i.data = some n) :
      Writes now token ⟨.decr k amount, .counter (some (lower amount n))⟩ (some i)
        { i with data := showCounter (lower amount n), token }

variable {now : Nat} {k : Key} {c : Cache}

theorem writes_store {mode : StoreMode} {data : Bytes} {ttl flags : UInt32}
    (h : (c.store now mode k data ttl flags).1 = .stored) :
    ∃ i, (c.store now mode k data ttl flags).2.items[k]? = some i ∧
      Writes now (c.lastToken + 1) ⟨.store mode k data ttl flags, .store .stored⟩
        (c.live? now k) i := by
  have ht := touched_counted now k c
  unfold store at h ⊢
  generalize { c with stores := c.stores + 1 }.touch now k = t at ht h
  rw [← ht.self, ← ht.lastToken]
  have hput : (t.put now k data ttl flags).items[k]? = some ⟨data, flags, t.lastToken + 1,
      if ttl = 0 then none else some (now + 1000 * ttl.toNat)⟩ := by
    rw [getElem?_put, if_pos rfl, deadline_eq]
  have hupdate (data : Bytes) (i : Entry) : (t.update k data i).items[k]? =
      some { i with data, token := t.lastToken + 1 } := by
    rw [getElem?_update, if_pos rfl]
  dsimp only at h ⊢
  cases mode with
  | set => exact ⟨_, hput, .put rfl⟩
  | add =>
    cases hk : t.items[k]? with
    | none => exact ⟨_, hput, .put rfl⟩
    | some i => simp [hk] at h
  | replace =>
    cases hk : t.items[k]? with
    | none => simp [hk] at h
    | some i => exact ⟨_, hput, .put rfl⟩
  | append =>
    cases hk : t.items[k]? with
    | none => simp [hk] at h
    | some i => exact ⟨_, hupdate _ i, .join rfl⟩
  | prepend =>
    cases hk : t.items[k]? with
    | none => simp [hk] at h
    | some i => exact ⟨_, hupdate _ i, .join rfl⟩

/-- A counter that gives a number had one before, and now shows the new one. -/
theorem items_of_count {change : UInt64 → UInt64} {m : UInt64}
    (h : (c.count now change k).1 = .counter (some m)) :
    ∃ i n, c.live? now k = some i ∧ counter? i.data = some n ∧ m = change n ∧
      (c.count now change k).2.items[k]? =
        some { i with data := showCounter (change n), token := c.lastToken + 1 } := by
  have ht := touched_touch now k c
  rw [count] at h ⊢
  generalize c.touch now k = t at ht h
  rw [← ht.self, ← ht.lastToken]
  cases hk : t.items[k]? with
  | none => simp [hk] at h
  | some i =>
    cases hn : counter? i.data with
    | none => simp [hk, hn] at h
    | some n =>
      simp only [hk, hn, Response.counter.injEq, Option.some.injEq] at h
      refine ⟨i, n, rfl, hn, h.symm, ?_⟩
      simp only [hn]
      rw [getElem?_update, if_pos rfl]

/-- **The item that an exchange writes.** -/
theorem writes_apply {x : Exchange} (hresponse : x.response = (c.apply now x.command).1)
    (hw : x.written? = some k) :
    ∃ i, (c.apply now x.command).2.items[k]? = some i ∧
      Writes now (c.lastToken + 1) x (c.live? now k) i := by
  obtain ⟨command, response⟩ := x
  unfold Exchange.written? at hw
  split at hw
  · next mode a data ttl flags heq =>
    cases heq
    cases hw
    exact writes_store (Response.store.inj hresponse).symm
  · next a data token ttl flags heq =>
    cases heq
    cases hw
    have hitem := getElem?_compareAndSet_of_stored (Response.store.inj hresponse).symm
    rw [deadline_eq] at hitem
    exact ⟨_, hitem, .cas⟩
  · next a amount m heq =>
    cases heq
    cases hw
    obtain ⟨i, n, hi, hn, rfl, hitem⟩ := items_of_count hresponse.symm
    rw [hi]
    exact ⟨_, hitem, .incr hn⟩
  · next a amount m heq =>
    cases heq
    cases hw
    obtain ⟨i, n, hi, hn, rfl, hitem⟩ := items_of_count hresponse.symm
    rw [hi]
    exact ⟨_, hitem, .decr hn⟩
  · cases hw

end Cache

/-! ## Items that are joined to -/

namespace StoreMode

theorem join_inj {mode : StoreMode} (hmode : mode.joins = true) {old new new' : Bytes} :
    mode.join old new = mode.join old new' ↔ new = new' := by
  cases mode <;> simp [joins] at hmode <;> simp [join]

theorem join_ne_nil {mode : StoreMode} (hmode : mode.joins = true) {old : Bytes} (h : old ≠ [])
    (new : Bytes) : mode.join old new ≠ [] := by
  cases mode <;> simp [joins] at hmode <;> simp [join, h]

end StoreMode

theorem Cache.Writes.exists_joined {now : Nat} {token : Token} {mode : StoreMode} {k : Key}
    {data : Bytes} {ttl flags : UInt32} {live? : Option Entry} {i : Entry}
    (h : Writes now token ⟨.store mode k data ttl flags, .store .stored⟩ live? i)
    (hmode : mode.joins = true) :
    ∃ old, live? = some old ∧ i = { old with data := mode.join old.data data, token } := by
  cases h with
  | put hput => rw [hmode] at hput; cases hput
  | join => exact ⟨_, rfl, rfl⟩

/-! ## Items that are replaced -/

/-- What an exchange has put in place of the item of a key, if it did: the source of the key, the
bytes, their time to live and their flags. -/
def Exchange.put? : Exchange → Option (Key.Source × Bytes × UInt32 × UInt32)
  | ⟨.store mode k data ttl flags, .store .stored⟩ =>
    if mode.joins then none else some (.ofKey k, data, ttl, flags)
  | ⟨.cas k data _ ttl flags, .store .stored⟩ => some (.ofKey k, data, ttl, flags)
  | _ => none

section

variable {x : Exchange} {k : Key} {data : Bytes} {ttl flags : UInt32}

theorem Exchange.written?_of_put? (h : x.put? = some (.ofKey k, data, ttl, flags)) :
    x.written? = some k := by
  unfold put? at h
  split at h
  · split at h
    · cases h
    · exact congrArg some (Key.Source.ofKey_inj (Prod.mk.inj (Option.some.inj h)).1)
  · exact congrArg some (Key.Source.ofKey_inj (Prod.mk.inj (Option.some.inj h)).1)
  · cases h

theorem Cache.Writes.eq_of_put? {now : Nat} {token : Token} {live? : Option Entry} {i : Entry}
    (h : Writes now token x live? i) (hput : x.put? = some (.ofKey k, data, ttl, flags)) :
    i = ⟨data, flags, token, deadline now ttl⟩ := by
  rw [deadline_eq]
  cases h with
  | put hmode =>
    simp only [Exchange.put?, hmode, Bool.false_eq_true, if_false, Option.some.injEq,
      Prod.mk.injEq] at hput
    obtain ⟨-, rfl, rfl, rfl⟩ := hput
    rfl
  | cas =>
    simp only [Exchange.put?, Option.some.injEq, Prod.mk.injEq] at hput
    obtain ⟨-, rfl, rfl, rfl⟩ := hput
    rfl
  | join hmode => simp [Exchange.put?, hmode] at hput
  | incr => cases hput
  | decr => cases hput

end

namespace Server.Moves

variable {s s' : Server} {x : Exchange} {k : Key}

/-- The item that is written from one state of a server to the next. -/
theorem writes (h : Moves s (some x) s') (hw : x.written? = some k) :
    ∃ i, s'.cache.items[k]? = some i ∧
      Cache.Writes s.now (s.cache.lastToken + 1) x (s.cache.live? s.now k) i := by
  obtain ⟨connections, hresponse, hcache⟩ := h.carried rfl
  rw [hcache]
  exact Cache.writes_apply hresponse hw

/-- What is put in place of an item is there afterwards. -/
theorem item_of_put {data : Bytes} {ttl flags : UInt32} (h : Moves s (some x) s')
    (hput : x.put? = some (.ofKey k, data, ttl, flags)) :
    s'.cache.items[k]? =
      some ⟨data, flags, s.cache.lastToken + 1, Cache.deadline s.now ttl⟩ := by
  obtain ⟨i, hi, hwrites⟩ := h.writes (Exchange.written?_of_put? hput)
  rw [hi, hwrites.eq_of_put? hput]

end Server.Moves

end CacheClient
