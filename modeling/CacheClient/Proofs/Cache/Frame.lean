import CacheClient.Proofs.Cache.Writes

/-!
# What a command leaves alone

A command leaves the items of keys that it does not name as they are, unless it removes all of
them. Under each key that it names it first drops an item past its deadline. If the response is a
read or a refusal (`Response.changesNothing`), that is all: the live items stay, with their bytes,
flags, tokens and deadlines. Otherwise one item is written or removed.

A token is given out for each item that is written, and for each attempt to join bytes to an item,
whether there is one or not (`Exchange.issues`). No other command gives one out.

Main result: `accounts_apply`.
-/

namespace CacheClient

/-! ## What responses tell -/

/-- The response is a read or a refusal. -/
def Response.changesNothing : Response → Bool
  | .item _ | .items _ | .error _ | .stats _ | .version _ => true
  | .store status => !status.isStored
  | .counter value => value.isNone
  | .deleted found => !found
  | .ok => false

/-- A store in that mode is carried out, given whether there is an item. -/
def StoreMode.admits : StoreMode → Bool → Bool
  | .set, _ => true
  | .add, found => !found
  | .replace, found | .append, found | .prepend, found => found

/-- A command that joins bytes to an item. -/
def Command.joins : Command → Bool
  | .store mode .. => mode.joins
  | _ => false

/-- A token is given out with the exchange. -/
def Exchange.issues (x : Exchange) : Bool :=
  x.written?.isSome || x.command.joins

namespace Cache

/-! ## Live items and responses -/

section

variable (now : Nat) (k : Key) (c : Cache)

/-- A store is carried out or not according to its mode, and to whether there is a live item. -/
theorem store_fst (mode : StoreMode) (data : Bytes) (ttl flags : UInt32) :
    (c.store now mode k data ttl flags).1 =
      if mode.admits (c.live? now k).isSome then .stored else .notStored := by
  have ht := (touched_counted now k c).self
  unfold store
  generalize { c with stores := c.stores + 1 }.touch now k = t at ht
  rw [← ht]
  dsimp only
  cases mode <;> cases t.items[k]? <;> rfl

/-- A counter needs a live item that shows a number. -/
theorem count_fst (change : UInt64 → UInt64) :
    (c.count now change k).1 =
      (c.live? now k).elim (.counter none) fun i =>
        (counter? i.data).elim (.error notANumber) fun n => .counter (some (change n)) := by
  have ht := (touched_touch now k c).self
  rw [count]
  generalize c.touch now k = t at ht
  rw [← ht]
  cases t.items[k]? with
  | none => rfl
  | some i =>
    dsimp only [Option.elim_some]
    cases counter? i.data <;> rfl

theorem delete_fst : (c.delete now k).1 = (c.live? now k).isSome := by
  have ht := (touched_touch now k c).self
  rw [delete]
  generalize c.touch now k = t at ht
  rw [← ht]
  cases t.items[k]? <;> rfl

end

/-! ## Other keys -/

section

variable {k a : Key} (c : Cache) (now : Nat)

theorem getElem?_fetchAll_of_not_mem {keys : List Key} (h : a ∉ keys) (withToken : Bool)
    (found : KeyMap Item) : (c.fetchAll now withToken found keys).2.items[a]? = c.items[a]? := by
  induction keys generalizing found c with
  | nil => rfl
  | cons k keys ih =>
    rw [List.mem_cons, not_or] at h
    rw [fetchAll_cons, ih _ h.2]
    exact (touched_fetch now withToken k c).other (Ne.symm h.1)

theorem getElem?_store_of_ne (h : k ≠ a) (mode : StoreMode) (data : Bytes) (ttl flags : UInt32) :
    (c.store now mode k data ttl flags).2.items[a]? = c.items[a]? := by
  have ht := (touched_counted now k c).other h
  unfold store
  generalize { c with stores := c.stores + 1 }.touch now k = t at ht
  have hput : (t.put now k data ttl flags).items[a]? = c.items[a]? := by
    rw [getElem?_put, if_neg h, ht]
  have hupdate : ∀ data i, (t.update k data i).items[a]? = c.items[a]? := by
    intro data i
    rw [getElem?_update, if_neg h, ht]
  dsimp only
  cases t.items[k]? with
  | none =>
    cases mode with
    | set | add => exact hput
    | replace | append | prepend => exact ht
  | some i =>
    cases mode with
    | set | replace => exact hput
    | add => exact ht
    | append | prepend => exact hupdate _ _

theorem getElem?_compareAndSet_of_ne (h : k ≠ a) (data : Bytes) (token : Token)
    (ttl flags : UInt32) :
    (c.compareAndSet now k data token ttl flags).2.items[a]? = c.items[a]? := by
  have ht := (touched_counted now k c).other h
  rw [compareAndSet]
  generalize { c with stores := c.stores + 1 }.touch now k = t at ht
  cases t.items[k]? with
  | none => exact ht
  | some i =>
    dsimp only
    split
    · rw [getElem?_put, if_neg h, ht]
    · exact ht

theorem getElem?_count_of_ne (h : k ≠ a) (change : UInt64 → UInt64) :
    (c.count now change k).2.items[a]? = c.items[a]? := by
  have ht := (touched_touch now k c).other h
  rw [count]
  generalize c.touch now k = t at ht
  split
  · exact ht
  · split
    · exact ht
    · rw [getElem?_update, if_neg h, ht]

theorem getElem?_delete_of_ne (h : k ≠ a) :
    (c.delete now k).2.items[a]? = c.items[a]? := by
  have ht := (touched_touch now k c).other h
  rw [delete]
  generalize c.touch now k = t at ht
  split
  · show (t.items.erase k)[a]? = c.items[a]?
    rw [KeyMap.getElem?_erase, if_neg h, ht]
  · exact ht

/-- A command that does not name a key leaves its item, unless it removes everything. -/
theorem getElem?_apply {command : Command} (hkey : a ∉ command.keys)
    (hflush : command ≠ .flushAll) : (c.apply now command).2.items[a]? = c.items[a]? := by
  have hne : ∀ {k}, command.keys = [k] → k ≠ a := by
    rintro k hkeys rfl
    rw [hkeys] at hkey
    exact hkey (List.mem_singleton_self k)
  cases command with
  | get k => exact (touched_fetch now false k c).other (hne rfl)
  | gets k => exact (touched_fetch now true k c).other (hne rfl)
  | getMulti keys => exact getElem?_fetchAll_of_not_mem c now hkey false ∅
  | getsMulti keys => exact getElem?_fetchAll_of_not_mem c now hkey true ∅
  | store mode k data ttl flags => exact getElem?_store_of_ne c now (hne rfl) mode data ttl flags
  | cas k data token ttl flags =>
    exact getElem?_compareAndSet_of_ne c now (hne rfl) data token ttl flags
  | incr k amount | decr k amount => exact getElem?_count_of_ne c now (hne rfl) _
  | delete k => exact getElem?_delete_of_ne c now (hne rfl)
  | flushAll => exact absurd rfl hflush
  | stats | version => rfl

theorem getElem?_fetchAll_of_mem {keys : List Key} (h : a ∈ keys) (withToken : Bool)
    (found : KeyMap Item) : (c.fetchAll now withToken found keys).2.items[a]? = c.live? now a := by
  induction keys generalizing found c with
  | nil => cases h
  | cons k keys ih =>
    rw [fetchAll_cons]
    by_cases hlater : a ∈ keys
    · rw [ih _ hlater, live?_fetch]
    · obtain rfl : a = k := (List.mem_cons.1 h).resolve_right hlater
      rw [getElem?_fetchAll_of_not_mem _ now hlater, (touched_fetch now withToken a c).self]

end

/-! ## Named keys -/

section

variable (now : Nat) (k : Key) (c : Cache)

theorem getElem?_store_of_refused {mode : StoreMode} {data : Bytes} {ttl flags : UInt32}
    (h : (c.store now mode k data ttl flags).1 ≠ .stored) :
    (c.store now mode k data ttl flags).2.items[k]? = c.live? now k := by
  have ht := (touched_counted now k c).self
  unfold store at h ⊢
  generalize { c with stores := c.stores + 1 }.touch now k = t at ht h
  rw [← ht]
  dsimp only at h ⊢
  cases hk : t.items[k]? with
  | none =>
    cases mode with
    | set | add => simp [hk] at h
    | replace | append | prepend => simp [hk]
  | some i =>
    cases mode with
    | add => simp [hk]
    | set | replace | append | prepend => simp [hk] at h

theorem getElem?_compareAndSet_of_refused {data : Bytes} {token : Token} {ttl flags : UInt32}
    (h : (c.compareAndSet now k data token ttl flags).1 ≠ .stored) :
    (c.compareAndSet now k data token ttl flags).2.items[k]? = c.live? now k := by
  have ht := (touched_counted now k c).self
  rw [compareAndSet] at h ⊢
  generalize { c with stores := c.stores + 1 }.touch now k = t at ht h
  rw [← ht]
  cases hk : t.items[k]? with
  | none => simp [hk]
  | some i =>
    by_cases hi : i.token = token
    · simp [hk, hi] at h
    · simp [hi, hk]

theorem getElem?_count_of_refused {change : UInt64 → UInt64}
    (h : (c.count now change k).1.changesNothing = true) :
    (c.count now change k).2.items[k]? = c.live? now k := by
  have ht := (touched_touch now k c).self
  rw [count] at h ⊢
  generalize c.touch now k = t at ht h
  rw [← ht]
  cases hk : t.items[k]? with
  | none => simp [hk]
  | some i =>
    cases hn : counter? i.data with
    | none => simp [hn, hk]
    | some n => simp [hk, hn, Response.changesNothing] at h

theorem getElem?_delete_self : (c.delete now k).2.items[k]? = none := by
  rw [delete]
  generalize c.touch now k = t
  cases hk : t.items[k]? with
  | none => exact hk
  | some i =>
    show (t.items.erase k)[k]? = none
    rw [KeyMap.getElem?_erase, if_pos rfl]

end

/-- Under a key that it names, a read or a refusal leaves the live item and nothing else. -/
theorem getElem?_apply_of_mem {now : Nat} {k : Key} {command : Command} {c : Cache}
    (hk : k ∈ command.keys) (h : (c.apply now command).1.changesNothing = true) :
    (c.apply now command).2.items[k]? = c.live? now k := by
  have hstore {status : StoreOutcome}
      (hs : (Response.store status).changesNothing = true) : status ≠ .stored := by
    rintro rfl
    cases hs
  cases command with
  | get a =>
    obtain rfl := List.mem_singleton.1 hk
    exact (touched_fetch now false k c).self
  | gets a =>
    obtain rfl := List.mem_singleton.1 hk
    exact (touched_fetch now true k c).self
  | getMulti keys => exact getElem?_fetchAll_of_mem c now hk false ∅
  | getsMulti keys => exact getElem?_fetchAll_of_mem c now hk true ∅
  | store mode a data ttl flags =>
    obtain rfl := List.mem_singleton.1 hk
    exact getElem?_store_of_refused now k c (hstore h)
  | cas a data token ttl flags =>
    obtain rfl := List.mem_singleton.1 hk
    exact getElem?_compareAndSet_of_refused now k c (hstore h)
  | incr a amount | decr a amount =>
    obtain rfl := List.mem_singleton.1 hk
    exact getElem?_count_of_refused now k c h
  | delete a =>
    obtain rfl := List.mem_singleton.1 hk
    -- nothing was found, so there is no live item either
    have hfound : (c.delete now k).1 = false := by simpa [apply, Response.changesNothing] using h
    rw [delete_fst, Option.isSome_eq_false_iff, Option.isNone_iff_eq_none] at hfound
    rw [hfound]
    exact getElem?_delete_self now k c
  | flushAll | stats | version => cases hk

/-! ## Tokens -/

section

variable (now : Nat) (k : Key) (c : Cache)

theorem lastToken_store (mode : StoreMode) (data : Bytes) (ttl flags : UInt32) :
    (c.store now mode k data ttl flags).2.lastToken =
      if (c.store now mode k data ttl flags).1 = .stored ∨ mode.joins = true then c.lastToken + 1
      else c.lastToken := by
  have ht := (touched_counted now k c).lastToken
  unfold store
  generalize { c with stores := c.stores + 1 }.touch now k = t at ht
  rw [← ht]
  cases hk : t.items[k]? <;> cases mode <;> simp [hk, put, update, StoreMode.joins]

theorem lastToken_compareAndSet (data : Bytes) (token : Token) (ttl flags : UInt32) :
    (c.compareAndSet now k data token ttl flags).2.lastToken =
      if (c.compareAndSet now k data token ttl flags).1 = .stored then c.lastToken + 1
      else c.lastToken := by
  have ht := (touched_counted now k c).lastToken
  rw [compareAndSet]
  generalize { c with stores := c.stores + 1 }.touch now k = t at ht
  rw [← ht]
  cases hk : t.items[k]? with
  | none => simp
  | some i => by_cases hi : i.token = token <;> simp [hi, put]

theorem lastToken_count (change : UInt64 → UInt64) :
    (c.count now change k).2.lastToken =
      if ((c.live? now k).bind fun i => counter? i.data).isSome then c.lastToken + 1
      else c.lastToken := by
  have ht := touched_touch now k c
  rw [count, ← ht.self, ← ht.lastToken]
  generalize c.touch now k = t
  cases hk : t.items[k]? with
  | none => simp
  | some i => cases hn : counter? i.data <;> simp [hn, update]

theorem lastToken_delete : (c.delete now k).2.lastToken = c.lastToken := by
  have ht := (touched_touch now k c).lastToken
  rw [delete]
  generalize c.touch now k = t at ht
  cases t.items[k]? <;> exact ht

end

/-- **The tokens that a command gives out.** -/
theorem lastToken_apply {now : Nat} {c : Cache} {x : Exchange}
    (hresponse : x.response = (c.apply now x.command).1) :
    (c.apply now x.command).2.lastToken =
      if x.issues then c.lastToken + 1 else c.lastToken := by
  obtain ⟨command, response⟩ := x
  cases command with
  | get k => exact lastToken_fetch now false k c
  | gets k => exact lastToken_fetch now true k c
  | getMulti keys => exact lastToken_fetchAll now false ∅ c keys
  | getsMulti keys => exact lastToken_fetchAll now true ∅ c keys
  | store mode k data ttl flags =>
    have hlast := lastToken_store now k c mode data ttl flags
    generalize hstatus : (c.store now mode k data ttl flags).1 = status at hlast
    obtain rfl : response = .store status := by rw [← hstatus]; exact hresponse
    refine hlast.trans ?_
    cases status <;> simp [Exchange.issues, Exchange.written?, Command.joins]
  | cas k data token ttl flags =>
    have hlast := lastToken_compareAndSet now k c data token ttl flags
    generalize hstatus : (c.compareAndSet now k data token ttl flags).1 = status at hlast
    obtain rfl : response = .store status := by rw [← hstatus]; exact hresponse
    refine hlast.trans ?_
    cases status <;> simp [Exchange.issues, Exchange.written?, Command.joins]
  | incr k amount | decr k amount =>
    obtain rfl := Eq.trans hresponse (count_fst now k c _)
    refine (lastToken_count now k c _).trans ?_
    cases c.live? now k with
    | none => rfl
    | some i => cases hn : counter? i.data <;> simp [hn, Exchange.issues, Exchange.written?,
        Command.joins]
  | delete k =>
    exact lastToken_delete now k c
  | flushAll | stats | version => rfl

/-! ## Everything together -/

/-- An exchange accounts for all that has changed in a cache. -/
structure Accounts (now : Nat) (x : Exchange) (c c' : Cache) : Prop where
  /-- Keys that are not named keep their items, unless everything is removed. -/
  unnamed : ∀ {k}, k ∉ x.command.keys → x.command ≠ .flushAll → c'.items[k]? = c.items[k]?
  /-- Keys that are named have no item past its deadline any more. -/
  evicted : ∀ {k i}, k ∈ x.command.keys → c'.items[k]? = some i → i.isExpired now = false
  /-- A read or a refusal leaves the live items of the keys that are named as they were. -/
  spared : ∀ {k}, k ∈ x.command.keys → x.response.changesNothing = true →
    c'.items[k]? = c.live? now k
  /-- The one item that is written has the next token. -/
  written : ∀ {k}, x.written? = some k →
    ∃ i, c'.items[k]? = some i ∧ Writes now (c.lastToken + 1) x (c.live? now k) i
  /-- What is deleted was live. -/
  deleted : ∀ {k}, x = ⟨.delete k, .deleted true⟩ →
    (c.live? now k).isSome = true ∧ c'.items[k]? = none
  lastToken : c'.lastToken = if x.issues then c.lastToken + 1 else c.lastToken

theorem Writes.isExpired_eq {now : Nat} {token : Token} {x : Exchange} {live? : Option Entry}
    {i : Entry} (h : Writes now token x live? i)
    (hlive : ∀ j, live? = some j → j.isExpired now = false) : i.isExpired now = false := by
  cases h with
  | put | cas =>
    rw [← deadline_eq]
    exact isExpired_deadline ..
  | @join _ _ _ _ _ j => exact hlive j rfl
  | @incr _ _ j => exact hlive j rfl
  | @decr _ _ j => exact hlive j rfl

section

variable {now : Nat} {k : Key} {x : Exchange} {c : Cache}

/-- An exchange that names a key writes its item, deletes it, or changes nothing. -/
theorem cases_of_mem_keys (hk : k ∈ x.command.keys)
    (hresponse : x.response = (c.apply now x.command).1) :
    x.written? = some k ∨ x = ⟨.delete k, .deleted true⟩ ∨ x.response.changesNothing = true := by
  obtain ⟨command, response⟩ := x
  dsimp only at hk hresponse ⊢
  cases command with
  | get a | gets a | getMulti keys | getsMulti keys =>
    obtain rfl := hresponse
    exact .inr (.inr rfl)
  | store mode a data ttl flags =>
    obtain rfl := List.mem_singleton.1 hk
    have hstatus := congrArg Response.store (store_fst now k c mode data ttl flags)
    obtain rfl := Eq.trans hresponse hstatus
    cases mode.admits (c.live? now k).isSome with
    | true => exact .inl rfl
    | false => exact .inr (.inr rfl)
  | cas a data token ttl flags =>
    obtain rfl := List.mem_singleton.1 hk
    obtain rfl := hresponse
    cases hstatus : (c.compareAndSet now k data token ttl flags).1 with
    | stored => exact .inl (by simp [apply, hstatus, Exchange.written?])
    | notStored | «exists» | notFound =>
      exact .inr (.inr (by simp [apply, hstatus, Response.changesNothing, StoreOutcome.isStored]))
  | incr a amount | decr a amount =>
    obtain rfl := List.mem_singleton.1 hk
    obtain rfl := Eq.trans hresponse (count_fst now k c _)
    cases c.live? now k with
    | none => exact .inr (.inr rfl)
    | some i =>
      dsimp only [Option.elim_some]
      cases counter? i.data with
      | none => exact .inr (.inr rfl)
      | some n => exact .inl rfl
  | delete a =>
    obtain rfl := List.mem_singleton.1 hk
    obtain rfl := hresponse
    cases hfound : (c.delete now k).1 with
    | true => exact .inr (.inl (by simp [apply, hfound]))
    | false => exact .inr (.inr (by simp [apply, hfound, Response.changesNothing]))
  | flushAll | stats | version => cases hk

theorem not_isExpired_apply {i : Entry} (hk : k ∈ x.command.keys)
    (hresponse : x.response = (c.apply now x.command).1)
    (hi : (c.apply now x.command).2.items[k]? = some i) : i.isExpired now = false := by
  have hlive : ∀ j, c.live? now k = some j → j.isExpired now = false := fun j hj =>
    (live?_eq_some_iff.1 hj).2
  rcases cases_of_mem_keys hk hresponse with hw | rfl | hidle
  · obtain ⟨j, hj, hwrites⟩ := writes_apply hresponse hw
    obtain rfl := Option.some.inj (hi.symm.trans hj)
    exact hwrites.isExpired_eq hlive
  · rw [show (c.apply now (.delete k)).2.items[k]? = none from getElem?_delete_self now k c] at hi
    cases hi
  · rw [hresponse] at hidle
    rw [getElem?_apply_of_mem hk hidle] at hi
    exact hlive i hi

end

/-- **Every exchange accounts for all that it changes.** A command leaves the items of other keys
as they are and drops what is past its deadline under its own. If it is refused, or only reads,
the live items stay as they were, in all their parts. If it writes, the item has the next token and
is the one that `Writes` tells: what a store or a conditional store gives, with a deadline of its
own, or the live item with bytes joined to it or with the next number. If it deletes, an item was
live and is gone. A token is given out for each item that is written, and for each attempt to join
bytes to an item. -/
theorem accounts_apply (now : Nat) (command : Command) (c : Cache) :
    Accounts now ⟨command, (c.apply now command).1⟩ c (c.apply now command).2 where
  unnamed hk hflush := getElem?_apply c now hk hflush
  evicted hk hi := not_isExpired_apply (x := ⟨command, _⟩) hk rfl hi
  spared hk hidle := getElem?_apply_of_mem hk hidle
  written hw := writes_apply (x := ⟨command, _⟩) rfl hw
  deleted {k} hdelete := by
    obtain ⟨rfl, hfound⟩ := Exchange.mk.inj hdelete
    have hfound : (c.delete now k).1 = true := Response.deleted.inj hfound
    rw [delete_fst] at hfound
    exact ⟨hfound, getElem?_delete_self now k c⟩
  lastToken := lastToken_apply (x := ⟨command, _⟩) rfl

/-- An attempt to append to nothing takes a token, an attempt to count with nothing takes none. -/
example (k : Key) (amount : UInt64) :
    let (response, c) := apply 0 (.store .append k [] 0 0) {}
    let (response', c') := apply 0 (.incr k amount) c
    (response, c.lastToken) = (.store .notStored, 1) ∧
      (response', c'.lastToken) = (.counter none, 1) :=
  ⟨rfl, rfl⟩

end Cache

end CacheClient
