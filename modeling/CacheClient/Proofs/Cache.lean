import CacheClient.Cache

/-!
# What commands do to items

Every command touches the keys that it names, so that items past their deadline go. Beyond that
it writes at most one item, which gets the next token, or removes items. Which of these a
command did can be told from its response (`Exchange.written?`, `Exchange.removes`).

Main result: `effect_apply`, the effect of any command on any item. Reads and conditional stores
also have exact descriptions: `fetch_fst`, `getElem?_fetchAll` and `compareAndSet_fst`.
-/

namespace CacheClient

/-- A command that was carried out, and its response. -/
structure Exchange where
  command : Command
  response : Response
deriving DecidableEq

namespace Exchange

/-- The key whose item was written. -/
def written? : Exchange → Option Key
  | ⟨.store _ k .., .store .stored⟩ => some k
  | ⟨.cas k .., .store .stored⟩ => some k
  | ⟨.incr k _, .counter (some _)⟩ => some k
  | ⟨.decr k _, .counter (some _)⟩ => some k
  | _ => none

/-- The item of a key, if there was one, was removed. -/
def removes (k : Key) : Exchange → Bool
  | ⟨.delete a, .deleted found⟩ => found && a = k
  | ⟨.flushAll, _⟩ => true
  | _ => false

/-- The item of a key was written or removed. -/
def Disturbs (k : Key) (x : Exchange) : Prop := x.written? = some k ∨ x.removes k

instance (k : Key) (x : Exchange) : Decidable (x.Disturbs k) :=
  inferInstanceAs (Decidable (_ ∨ _))

/-- Only a command that names a key disturbs it, or one that removes everything. -/
theorem mem_keys_of_disturbs {k : Key} {x : Exchange} (h : x.Disturbs k) :
    k ∈ x.command.keys ∨ x.command = .flushAll := by
  rcases h with hw | hr
  · unfold written? at hw
    split at hw <;> simp_all [Command.keys]
  · unfold removes at hr
    split at hr <;> simp_all [Command.keys]

theorem not_disturbs_gets (k a : Key) (response : Response) : ¬Disturbs k ⟨.gets a, response⟩ := by
  simp [Disturbs, written?, removes]

theorem not_disturbs_cas {k a : Key} {data : Bytes} {token : Token} {ttl flags : UInt32}
    {response : Response} (h : response ≠ .store .stored) :
    ¬Disturbs k ⟨.cas a data token ttl flags, response⟩ := by
  rintro (hw | hr)
  · unfold written? at hw
    split at hw <;> simp_all
  · cases hr

end Exchange

/-- The key that a command reads, if it reads a single one, and whether it asks for the token. -/
def Command.read? : Command → Option (Bool × Key)
  | .get k => some (false, k)
  | .gets k => some (true, k)
  | _ => none

namespace Cache

/-! ## The next token -/

/-- While tokens last, the next one is greater than all before. -/
theorem lt_next {last t : Token} (hle : last ≤ last + 1) (h : t ≤ last) : t < last + 1 := by
  have hne : last ≠ last + 1 := by
    intro heq
    simp at heq
  exact UInt64.lt_of_le_of_lt h (UInt64.lt_of_le_of_ne hle hne)

/-! ## Touching -/

theorem live?_eq_some_iff {now : Nat} {k : Key} {c : Cache} {i : Entry} :
    c.live? now k = some i ↔ c.items[k]? = some i ∧ i.isExpired now = false := by
  simp [live?, Option.filter_eq_some_iff]

theorem Entry.isExpired_mono {now later : Nat} {i : Entry} (hle : now ≤ later)
    (h : i.isExpired now = true) : i.isExpired later = true := by
  unfold isExpired at h ⊢
  split at h
  · simp only [decide_eq_true_eq] at h ⊢
    exact Nat.le_trans h hle
  · cases h

/-- A touch does not show in the live items. -/
theorem live?_touch (now : Nat) (k a : Key) (c : Cache) :
    (c.touch now k).live? now a = c.live? now a := by
  by_cases h : k = a
  · subst h
    rw [live?, getElem?_touch_self, live?, Option.filter_filter]
    simp
  · rw [live?, getElem?_touch_of_ne h, live?]

/-- One cache is the other with a key touched, whatever has been counted meanwhile. -/
structure Touched (now : Nat) (k : Key) (c t : Cache) : Prop where
  self : t.items[k]? = c.live? now k
  other : ∀ {a}, k ≠ a → t.items[a]? = c.items[a]?
  lastToken : t.lastToken = c.lastToken

theorem touched_touch (now : Nat) (k : Key) (c : Cache) : Touched now k c (c.touch now k) where
  self := getElem?_touch_self now k c
  other h := getElem?_touch_of_ne h now c
  lastToken := by rw [touch_eq]

/-- A store is counted before its key is touched. -/
theorem touched_counted (now : Nat) (k : Key) (c : Cache) :
    Touched now k c ({ c with stores := c.stores + 1 }.touch now k) :=
  { touched_touch now k { c with stores := c.stores + 1 } with }

theorem Touched.frame {now : Nat} {k : Key} {c t : Cache} (h : Touched now k c t) (a : Key) :
    t.items[a]? = c.items[a]? ∨ t.items[a]? = c.live? now a := by
  by_cases hka : k = a
  · subst hka
    exact .inr h.self
  · exact .inl (h.other hka)

/-! ## Reading -/

/-- What a read gives of an item. -/
def Entry.shown (withToken : Bool) (i : Entry) : Item :=
  ⟨i.data, i.flags, if withToken then some i.token else none⟩

theorem fetch_fst (now : Nat) (withToken : Bool) (k : Key) (c : Cache) :
    (c.fetch now withToken k).1 = (c.live? now k).map (Entry.shown withToken) := by
  rw [fetch]
  split
  · next i h => rw [← getElem?_touch_self, h]; rfl
  · next h => rw [← getElem?_touch_self, h]; rfl

theorem items_fetch (now : Nat) (withToken : Bool) (k : Key) (c : Cache) :
    (c.fetch now withToken k).2.items = (c.touch now k).items := by
  rw [fetch]
  split <;> rfl

theorem lastToken_fetch (now : Nat) (withToken : Bool) (k : Key) (c : Cache) :
    (c.fetch now withToken k).2.lastToken = c.lastToken := by
  rw [fetch]
  split <;> exact (touched_touch now k c).lastToken

theorem touched_fetch (now : Nat) (withToken : Bool) (k : Key) (c : Cache) :
    Touched now k c (c.fetch now withToken k).2 where
  self := by rw [items_fetch, getElem?_touch_self]
  other h := by rw [items_fetch, getElem?_touch_of_ne h]
  lastToken := lastToken_fetch ..

theorem live?_fetch (now : Nat) (withToken : Bool) (k a : Key) (c : Cache) :
    (c.fetch now withToken k).2.live? now a = c.live? now a := by
  rw [live?, items_fetch, ← live?, live?_touch]

theorem fetchAll_cons (now : Nat) (withToken : Bool) (found : KeyMap Item) (c : Cache) (k : Key)
    (keys : List Key) :
    c.fetchAll now withToken found (k :: keys) =
      (c.fetch now withToken k).2.fetchAll now withToken
        ((c.fetch now withToken k).1.elim found (found.insert k)) keys := by
  rw [fetchAll]
  split
  · next h => rw [h]; rfl
  · next h => rw [h]; rfl

theorem getElem?_fetchAll (now : Nat) (withToken : Bool) (found : KeyMap Item) (c : Cache)
    (keys : List Key) (a : Key) :
    (c.fetchAll now withToken found keys).1[a]? =
      if a ∈ keys then ((c.live? now a).map (Entry.shown withToken)).or found[a]?
      else found[a]? := by
  induction keys generalizing found c with
  | nil => simp [fetchAll]
  | cons k keys ih =>
    rw [fetchAll_cons, ih, live?_fetch, fetch_fst]
    cases hk : c.live? now k with
    | none =>
      by_cases hka : k = a
      · subst hka
        simp [hk]
      · simp [Ne.symm hka]
    | some i =>
      simp only [Option.map_some, Option.elim_some, KeyMap.getElem?_insert]
      by_cases hka : k = a
      · subst hka
        simp [hk]
      · simp [hka, Ne.symm hka]

theorem lastToken_fetchAll (now : Nat) (withToken : Bool) (found : KeyMap Item) (c : Cache)
    (keys : List Key) : (c.fetchAll now withToken found keys).2.lastToken = c.lastToken := by
  induction keys generalizing found c with
  | nil => rfl
  | cons k keys ih => rw [fetchAll_cons, ih, lastToken_fetch]

theorem frame_fetchAll (now : Nat) (withToken : Bool) (found : KeyMap Item) (c : Cache)
    (keys : List Key) (a : Key) :
    (c.fetchAll now withToken found keys).2.items[a]? = c.items[a]? ∨
      (c.fetchAll now withToken found keys).2.items[a]? = c.live? now a := by
  induction keys generalizing found c with
  | nil => exact .inl rfl
  | cons k keys ih =>
    rw [fetchAll_cons]
    rcases ih ((c.fetch now withToken k).1.elim found (found.insert k))
      (c.fetch now withToken k).2 with h | h
    · rw [h]
      exact (touched_fetch now withToken k c).frame a
    · rw [h, live?_fetch]
      exact .inr rfl

/-! ## Effects -/

/-- What a command has done to a cache, in the light of the response. -/
structure Effect (now : Nat) (x : Exchange) (c c' : Cache) : Prop where
  /-- Other items stay, or go if they are past their deadline. -/
  frame : ∀ {k}, ¬x.Disturbs k → c'.items[k]? = c.items[k]? ∨ c'.items[k]? = c.live? now k
  /-- A written item has the next token. -/
  written : ∀ {k}, x.written? = some k →
    c'.lastToken = c.lastToken + 1 ∧ ∃ i, c'.items[k]? = some i ∧ i.token = c'.lastToken
  removed : ∀ {k}, x.removes k → c'.items[k]? = none
  /-- At most one token is given out. -/
  lastToken : c'.lastToken = c.lastToken ∨ c'.lastToken = c.lastToken + 1

theorem Effect.of_idle {now : Nat} {x : Exchange} {c c' : Cache} (hw : x.written? = none)
    (hr : ∀ k, x.removes k = false)
    (hframe : ∀ k, c'.items[k]? = c.items[k]? ∨ c'.items[k]? = c.live? now k)
    (htoken : c'.lastToken = c.lastToken ∨ c'.lastToken = c.lastToken + 1) :
    Effect now x c c' where
  frame _ := hframe _
  written h := by rw [hw] at h; cases h
  removed h := by rw [hr] at h; cases h
  lastToken := htoken

namespace Touched

variable {now : Nat} {k : Key} {c t : Cache}

/-- The effect of a command that finds nothing to do at its key. -/
theorem idle (h : Touched now k c t) {x : Exchange} (hw : x.written? = none)
    (hr : ∀ a, x.removes a = false) : Effect now x c t :=
  .of_idle hw hr h.frame (.inl h.lastToken)

/-- The effect of a command that writes the item of its key. -/
theorem write (h : Touched now k c t) {x : Exchange} (hw : x.written? = some k)
    (hr : ∀ a, x.removes a = false) (i : Entry) (hi : i.token = t.lastToken + 1) :
    Effect now x c { t with items := t.items.insert k i, lastToken := t.lastToken + 1 } where
  frame {a} ha := by
    have hka : k ≠ a := fun hka => ha (.inl (by rw [hw, hka]))
    left
    show (t.items.insert k i)[a]? = c.items[a]?
    rw [KeyMap.getElem?_insert, if_neg hka, h.other hka]
  written {a} ha := by
    rw [hw] at ha
    cases ha
    refine ⟨by rw [← h.lastToken], i, ?_, hi⟩
    show (t.items.insert k i)[k]? = some i
    rw [KeyMap.getElem?_insert, if_pos rfl]
  removed ha := by rw [hr] at ha; cases ha
  lastToken := .inr (by rw [← h.lastToken])

/-- The effect of a command that removes the item of its key. -/
theorem erase (h : Touched now k c t) {x : Exchange} (hw : x.written? = none)
    (hr : ∀ a, x.removes a = (k = a : Bool)) :
    Effect now x c { t with items := t.items.erase k } where
  frame {a} ha := by
    have hka : k ≠ a := fun hka => ha (.inr (by rw [hr, hka]; simp))
    left
    show (t.items.erase k)[a]? = c.items[a]?
    rw [KeyMap.getElem?_erase, if_neg hka, h.other hka]
  written ha := by rw [hw] at ha; cases ha
  removed {a} ha := by
    have hka : k = a := by rw [hr] at ha; simpa using ha
    show (t.items.erase k)[a]? = none
    rw [KeyMap.getElem?_erase, if_pos hka]
  lastToken := .inl h.lastToken

end Touched

theorem effect_store (now : Nat) (mode : StoreMode) (k : Key) (data : Bytes) (ttl flags : UInt32)
    (c : Cache) :
    Effect now ⟨.store mode k data ttl flags, .store (c.store now mode k data ttl flags).1⟩ c
      (c.store now mode k data ttl flags).2 := by
  have ht := touched_counted now k c
  unfold store
  generalize { c with stores := c.stores + 1 }.touch now k = t at ht
  dsimp only
  cases mode with
  | set => exact ht.write rfl (fun _ => rfl) _ rfl
  | add =>
    cases hk : t.items[k]? with
    | none => exact ht.write rfl (fun _ => rfl) _ rfl
    | some i => exact ht.idle rfl fun _ => rfl
  | replace =>
    cases hk : t.items[k]? with
    | none => exact ht.idle rfl fun _ => rfl
    | some i => exact ht.write rfl (fun _ => rfl) _ rfl
  | append =>
    cases hk : t.items[k]? with
    | none => exact .of_idle rfl (fun _ => rfl) ht.frame (.inr (by rw [← ht.lastToken]))
    | some i => exact ht.write rfl (fun _ => rfl) _ rfl
  | prepend =>
    cases hk : t.items[k]? with
    | none => exact .of_idle rfl (fun _ => rfl) ht.frame (.inr (by rw [← ht.lastToken]))
    | some i => exact ht.write rfl (fun _ => rfl) _ rfl

theorem effect_compareAndSet (now : Nat) (k : Key) (data : Bytes) (token : Token)
    (ttl flags : UInt32) (c : Cache) :
    Effect now
      ⟨.cas k data token ttl flags, .store (c.compareAndSet now k data token ttl flags).1⟩ c
      (c.compareAndSet now k data token ttl flags).2 := by
  have ht := touched_counted now k c
  rw [compareAndSet]
  generalize { c with stores := c.stores + 1 }.touch now k = t at ht
  cases hk : t.items[k]? with
  | none => exact ht.idle rfl fun _ => rfl
  | some i =>
    dsimp only
    by_cases hi : i.token = token
    · rw [if_pos hi]
      exact ht.write rfl (fun _ => rfl) _ rfl
    · rw [if_neg hi]
      exact ht.idle rfl fun _ => rfl

/-- Counting writes the item of a key if it shows a number, and is idle otherwise. -/
theorem effect_count (now : Nat) (change : UInt64 → UInt64) (k : Key) {command : Command}
    (c : Cache)
    (hw : ∀ n, Exchange.written? ⟨command, .counter (some n)⟩ = some k)
    (hn : Exchange.written? ⟨command, .counter none⟩ = none)
    (he : ∀ text, Exchange.written? ⟨command, .error text⟩ = none)
    (hr : ∀ r a, Exchange.removes a ⟨command, r⟩ = false) :
    Effect now ⟨command, (c.count now change k).1⟩ c (c.count now change k).2 := by
  have ht := touched_touch now k c
  rw [count]
  generalize c.touch now k = t at ht
  split
  · exact ht.idle hn (hr _)
  · split
    · exact ht.idle (he _) (hr _)
    · exact ht.write (hw _) (hr _) _ rfl

theorem effect_delete (now : Nat) (k : Key) (c : Cache) :
    Effect now ⟨.delete k, .deleted (c.delete now k).1⟩ c (c.delete now k).2 := by
  have ht := touched_touch now k c
  rw [delete]
  generalize c.touch now k = t at ht
  split
  · exact ht.erase rfl fun _ => rfl
  · exact ht.idle rfl fun _ => rfl

/-- **The effect of a command.** -/
theorem effect_apply (now : Nat) (command : Command) (c : Cache) :
    Effect now ⟨command, (c.apply now command).1⟩ c (c.apply now command).2 := by
  cases command with
  | get k => exact (touched_fetch now false k c).idle rfl fun _ => rfl
  | gets k => exact (touched_fetch now true k c).idle rfl fun _ => rfl
  | getMulti keys =>
    exact .of_idle rfl (fun _ => rfl) (frame_fetchAll now false ∅ c keys)
      (.inl (lastToken_fetchAll now false ∅ c keys))
  | getsMulti keys =>
    exact .of_idle rfl (fun _ => rfl) (frame_fetchAll now true ∅ c keys)
      (.inl (lastToken_fetchAll now true ∅ c keys))
  | store mode k data ttl flags => exact effect_store now mode k data ttl flags c
  | cas k data token ttl flags => exact effect_compareAndSet now k data token ttl flags c
  | incr k amount =>
    exact effect_count now (· + amount) k c (fun _ => rfl) rfl (fun _ => rfl) fun _ _ => rfl
  | decr k amount =>
    exact effect_count now (lower amount) k c (fun _ => rfl) rfl (fun _ => rfl) fun _ _ => rfl
  | delete k => exact effect_delete now k c
  | flushAll =>
    exact {
      frame := fun h => absurd (.inr rfl) h
      written := fun h => by cases h
      removed := fun _ => Std.ExtTreeMap.getElem?_empty
      lastToken := .inl rfl }
  | stats => exact .of_idle rfl (fun _ => rfl) (fun _ => .inl rfl) (.inl rfl)
  | version => exact .of_idle rfl (fun _ => rfl) (fun _ => .inl rfl) (.inl rfl)

/-! ## Tokens that reads give -/

theorem compareAndSet_fst (now : Nat) (k : Key) (data : Bytes) (token : Token)
    (ttl flags : UInt32) (c : Cache) :
    (c.compareAndSet now k data token ttl flags).1 =
      (c.live? now k).elim .notFound fun i => if i.token = token then .stored else .exists := by
  have ht := touched_counted now k c
  rw [compareAndSet, ← ht.self]
  split
  · next h => rw [h]; rfl
  · next i h =>
    rw [h, Option.elim_some]
    split <;> rfl

theorem getElem?_compareAndSet_of_stored {now : Nat} {k : Key} {data : Bytes} {token : Token}
    {ttl flags : UInt32} {c : Cache}
    (h : (c.compareAndSet now k data token ttl flags).1 = .stored) :
    (c.compareAndSet now k data token ttl flags).2.items[k]? =
      some ⟨data, flags, c.lastToken + 1, deadline now ttl⟩ := by
  have ht := touched_counted now k c
  rw [compareAndSet] at h ⊢
  generalize { c with stores := c.stores + 1 }.touch now k = t at ht h
  cases hk : t.items[k]? with
  | none => simp [hk] at h
  | some i =>
    by_cases hi : i.token = token
    · simp only [hi, if_true]
      rw [getElem?_put, if_pos rfl, ht.lastToken]
    · simp [hk, hi] at h

theorem deadline_eq (now : Nat) (ttl : UInt32) :
    deadline now ttl = if ttl = 0 then none else some (now + 1000 * ttl.toNat) := by
  rw [deadline, Nat.mul_comm]

/-- An item is past its deadline when its time to live is over, if that has an end. -/
theorem isExpired_deadline_iff {now later : Nat} {ttl flags : UInt32} {data : Bytes}
    {token : Token} :
    Entry.isExpired later ⟨data, flags, token, deadline now ttl⟩ = true ↔
      ttl ≠ 0 ∧ now + 1000 * ttl.toNat ≤ later := by
  by_cases httl : ttl = 0
  · simp [Entry.isExpired, deadline_eq, httl]
  · simp [Entry.isExpired, deadline_eq, httl]

theorem isExpired_deadline (now : Nat) (ttl : UInt32) (data : Bytes) (flags : UInt32)
    (token : Token) : Entry.isExpired now ⟨data, flags, token, deadline now ttl⟩ = false := by
  rw [← Bool.not_eq_true, isExpired_deadline_iff]
  rintro ⟨httl, hle⟩
  have hpos : ttl.toNat ≠ 0 := fun h => httl (UInt32.toNat_inj.1 h)
  omega

/-- A token that a read gives is for a key that it names, and belongs to the live item. -/
theorem live?_of_mem_tokensFor {now : Nat} {command : Command} {c : Cache} {k : Key} {t : Token}
    (h : (k, t) ∈ (c.apply now command).1.tokensFor command) :
    k ∈ command.keys ∧ ∃ i, c.live? now k = some i ∧ i.token = t := by
  cases command with
  | gets a =>
    simp only [apply, fetch_fst] at h
    cases ha : c.live? now a with
    | none => simp [ha, Response.tokensFor] at h
    | some i =>
      simp only [ha, Response.tokensFor, Entry.shown, Option.map_some, if_true,
        Option.toList_some, List.map_cons, List.map_nil, List.mem_singleton] at h
      obtain ⟨rfl, rfl⟩ := Prod.mk.inj h
      exact ⟨List.mem_singleton_self _, i, ha, rfl⟩
  | getsMulti keys =>
    simp only [apply, Response.tokensFor, List.mem_filterMap] at h
    obtain ⟨⟨a, item⟩, hmem, htoken⟩ := h
    rw [Std.ExtTreeMap.mem_toList_iff_getElem?_eq_some, getElem?_fetchAll] at hmem
    split at hmem
    · next hkeys =>
      cases ha : c.live? now a with
      | none => simp [ha] at hmem
      | some i =>
        simp only [ha, Option.map_some, Option.some_or, Option.some.injEq] at hmem
        subst hmem
        simp only [Entry.shown, if_true, Option.map_some, Option.some.injEq] at htoken
        obtain ⟨rfl, rfl⟩ := Prod.mk.inj htoken
        exact ⟨hkeys, i, ha, rfl⟩
    · simp at hmem
  | _ => simp [Response.tokensFor] at h

end Cache

end CacheClient
