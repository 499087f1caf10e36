import CacheClient.Proofs.Cache.Connections
import CacheClient.Proofs.Client.Mirrors

/-!
# Reading many keys

Reading many keys at once comes to the same as reading them one by one.

**One by one.** A read leaves no live item different, so it does not matter to those that follow.
A run of reads therefore gives each key what it would give alone, and leaves the cache that has
fetched the keys in turn (`Cache.readAll`) and the tokens of the live items among them
(`run_reads`).

**At once.** The server fetches the keys in turn as well. The items of the response are the live
ones among the keys; the values are those of the items, or there is one that cannot be read.

Neither the tokens nor the cache need be compared step by step: two lists with the same tokens for
each key are remembered alike (`TokenRegistry.rememberAll_congr`), and the cache is the same up to
the count of connections, which sessions may have raised.

Main result: `batch_agrees`.
-/

namespace CacheClient

open Server

/-! ## Remembering -/

namespace TokenRegistry

variable {seen seen' : List (Key × Token)}

theorem ext_get? {r r' : TokenRegistry} (henabled : r.enabled = r'.enabled)
    (hget : ∀ k, r.get? k = r'.get? k) : r = r' := by
  obtain ⟨enabled, tokens⟩ := r
  obtain ⟨enabled', tokens'⟩ := r'
  obtain rfl : enabled = enabled' := henabled
  obtain rfl : tokens = tokens' := Std.ExtTreeMap.ext_getElem? fun {k} => hget k
  rfl

/-- Lists with the same tokens for each key are remembered alike, if there is one for each. -/
theorem rememberAll_congr (hmem : ∀ e, e ∈ seen ↔ e ∈ seen')
    (hsame : ∀ k t t', (k, t) ∈ seen → (k, t') ∈ seen → t' = t) (r : TokenRegistry) :
    r.rememberAll seen = r.rememberAll seen' := by
  cases henabled : r.enabled with
  | false => rw [rememberAll_of_disabled henabled, rememberAll_of_disabled henabled]
  | true =>
    refine ext_get? (by simp [enabled_rememberAll]) ?_
    intro k
    by_cases hk : ∃ t, (k, t) ∈ seen
    · obtain ⟨t, ht⟩ := hk
      rw [get?_rememberAll_of_mem henabled ht fun t' => hsame k t t' ht,
        get?_rememberAll_of_mem henabled ((hmem _).1 ht) fun t' ht' =>
          hsame k t t' ht ((hmem _).2 ht')]
    · have hseen : ∀ entry ∈ seen, entry.1 ≠ k := by
        rintro ⟨a, t⟩ hentry rfl
        exact hk ⟨t, hentry⟩
      rw [get?_rememberAll_of_forall_ne hseen,
        get?_rememberAll_of_forall_ne fun entry hentry => hseen entry ((hmem _).2 hentry)]

end TokenRegistry

/-! ## Fetching -/

namespace Cache

/-- The cache after keys were fetched in turn. -/
def readAll (now : Nat) (keys : List Key) (c : Cache) : Cache :=
  keys.foldl (fun c k => (c.fetch now false k).2) c

variable (now : Nat) (withToken : Bool) (c : Cache)

/-- What is shown does not matter to the cache. -/
theorem fetch_snd (k : Key) : (c.fetch now withToken k).2 = (c.fetch now false k).2 := by
  rw [fetch, fetch]
  cases (c.touch now k).items[k]? <;> rfl

theorem fetchAll_snd (found : KeyMap Item) (keys : List Key) :
    (c.fetchAll now withToken found keys).2 = c.readAll now keys := by
  induction keys generalizing found c with
  | nil => rfl
  | cons k keys ih =>
    rw [fetchAll_cons, ih, fetch_snd]
    rfl

theorem readAll_withConnections (n : Nat) (keys : List Key) :
    (c.withConnections n).readAll now keys = (c.readAll now keys).withConnections n := by
  rw [← fetchAll_snd now false _ ∅, ← fetchAll_snd now false _ ∅, fetchAll_withConnections]

/-- The items that are found are those that are shown without tokens. -/
theorem blank_found (keys : List Key) :
    ((c.fetchAll now true ∅ keys).1.map fun _ i => i.blank) =
      (c.fetchAll now false ∅ keys).1.map fun _ i => i.blank := by
  apply Std.ExtTreeMap.ext_getElem?
  intro k
  rw [Std.ExtTreeMap.getElem?_map, Std.ExtTreeMap.getElem?_map, getElem?_fetchAll,
    getElem?_fetchAll]
  cases c.live? now k <;> split <;> simp [Entry.shown, Item.blank]

end Cache

/-! ## Values -/

namespace Operation

theorem exists_hits {items : KeyMap Item}
    (h : ∀ (k : Key) (item : Item), items[k]? = some item → ∃ v, valueOf item = .ok v) :
    ∃ found, hits items = .ok found ∧ ∀ (k : Key) (v : Value),
      found[k]? = some v ↔ ∃ item, items[k]? = some item ∧ valueOf item = .ok v := by
  refine ⟨items.filterMap fun _ item => (valueOf item).toOption, ?_, ?_⟩
  · cases hresult : hits items with
    | error e =>
      obtain ⟨k, item, hitem, herror⟩ := exists_of_hits_eq_error hresult
      obtain ⟨v, hv⟩ := h k item hitem
      cases hv.symm.trans herror
    | ok found =>
      rw [hits] at hresult
      split at hresult
      · cases hresult
      · exact hresult.symm
  · intro k v
    rw [Std.ExtTreeMap.getElem?_filterMap', Option.bind_eq_some_iff]
    have hvalue (item : Item) : (valueOf item).toOption = some v ↔ valueOf item = .ok v := by
      cases valueOf item <;> simp [Except.toOption]
    simp only [hvalue]

theorem hits_empty : hits ∅ = .ok ∅ := by
  have hnone : ∀ (k : Key) (item : Item), (∅ : KeyMap Item)[k]? = some item →
      ∃ v, valueOf item = .ok v := by simp
  obtain ⟨found, hfound, hvalues⟩ := exists_hits hnone
  rw [hfound]
  refine congrArg Except.ok (Std.ExtTreeMap.ext_getElem? fun {k} => ?_)
  rw [Option.ext_iff]
  simp [hvalues]

theorem exists_hits_eq_error {items : KeyMap Item} {k : Key} {item : Item} {e : Error}
    (hitem : items[k]? = some item) (herror : valueOf item = .error e) :
    ∃ e', hits items = .error e' := by
  cases hresult : hits items with
  | error e' => exact ⟨e', rfl⟩
  | ok found =>
    have hread := read_hits items
    rw [hresult] at hread
    have hmem := Std.ExtTreeMap.mem_toList_iff_getElem?_eq_some.2 hitem
    obtain ⟨v, hv⟩ := hread item (List.mem_map_of_mem hmem)
    cases hv.symm.trans herror

end Operation

/-! ## Reading on a server without faults -/

/-- A response that is no table of statistics matches itself only. -/
theorem Response.Matches.eq_of_ne_stats {r r' : Response} (h : r.Matches r')
    (hstats : ∀ table, r' ≠ .stats table) : r = r' := by
  cases h with
  | same => rfl
  | stats => exact absurd rfl (hstats _)

namespace Client

/-- A client and its server have gone on by reading keys: the client has taken up tokens, and the
server has fetched the keys in turn. -/
structure Served (c : Client SessionId) (s : Server) (keys : List Key) (seen : List (Key × Token))
    (c' : Client SessionId) (s' : Server) : Prop where
  config : c'.config = c.config
  tokens : c'.tokens = c.tokens.rememberAll seen
  cache : s'.cache.withConnections 0 = (s.cache.readAll s.now keys).withConnections 0
  now : s'.now = s.now
  up : s'.down = false
  failNext : s'.failNext = 0

variable {c c' c'' : Client SessionId} {s s' s'' : Server} {keys more : List Key}
  {seen seen' : List (Key × Token)} {k : Key}

theorem Served.refl (hup : s.down = false) (hfail : s.failNext = 0) : Served c s [] [] c s :=
  ⟨rfl, rfl, rfl, rfl, hup, hfail⟩

theorem Served.trans (h : Served c s keys seen c' s') (h' : Served c' s' more seen' c'' s'') :
    Served c s (keys ++ more) (seen ++ seen') c'' s'' where
  config := h'.config.trans h.config
  tokens := by
    rw [h'.tokens, h.tokens]
    exact List.foldl_append.symm
  cache := by
    rw [h'.cache, h.now, ← Cache.readAll_withConnections, h.cache, Cache.readAll_withConnections]
    exact congrArg (Cache.withConnections 0) List.foldl_append.symm
  now := h'.now.trans h.now
  up := h'.up
  failNext := h'.failNext

theorem Served.live?_eq (h : Served c s [k] seen c' s') (a : Key) :
    s'.cache.live? s'.now a = s.cache.live? s.now a := by
  have hcache := congrArg Cache.items h.cache
  have hitems : s'.cache.items = (s.cache.fetch s.now false k).2.items := hcache
  rw [h.now, Cache.live?, hitems, ← Cache.live?, Cache.live?_fetch]

/-- A command that reads keys is answered from the cache as it is. -/
theorem perform_read {op : Operation} {command : Command} {answer : Except Error op.Answer}
    (hup : s.down = false) (hfail : s.failNext = 0)
    (hdenotes : Operation.Denotes c.config c.tokens.get? op command) (hvoid : op.isVoid = false)
    (hstats : ∀ table, (s.cache.apply s.now command).1 ≠ .stats table)
    (hanswer : op.answer? (s.cache.apply s.now command).1 = some answer)
    (hcache : (s.cache.apply s.now command).2 = s.cache.readAll s.now keys) :
    let out := c.perform Server.network op s
    out.1 = answer ∧
      Served c s keys ((s.cache.apply s.now command).1.tokensFor command) out.2.1 out.2.2 := by
  intro out
  obtain ⟨response, connection, s', hs, hperform⟩ :=
    perform_of_available (hdenotes.command_eq hvoid) hup hfail
  obtain ⟨hnow, hdown, hfailNext⟩ := hs.frame
  obtain ⟨_, ⟨connections, sessions, calls, rfl⟩, hresponse, rfl⟩ := hs
  obtain ⟨hmatches, happly⟩ := Cache.apply_withConnections connections s.now s.cache command
  have hresponse : response = (s.cache.apply s.now command).1 := by
    rw [show response = _ from hresponse]
    refine hmatches.eq_of_ne_stats hstats
  rw [hresponse] at hperform
  rcases hperform with ⟨text, htext, -⟩ | ⟨answer', hanswer', hperform⟩
  · rw [htext, Operation.answer?_error] at hanswer
    cases hanswer
  · cases hanswer.symm.trans hanswer'
    rw [show out = _ from hperform]
    refine ⟨rfl, rfl, rfl, ?_, hnow, hdown.trans hup, hfailNext.trans hfail⟩
    rw [← hcache]
    exact (congrArg (Cache.withConnections 0) happly :)

section

variable (hup : s.down = false) (hfail : s.failNext = 0)

include hup hfail

/-! ## One by one -/

theorem perform_get (hk : Operation.keyOf c.config (.ofKey k) = .ok k) :
    let out := c.perform Server.network (.get (.ofKey k)) s
    out.1 = Operation.hit? ((s.cache.live? s.now k).map (Cache.Entry.shown false)) ∧
      Served c s [k] [] out.2.1 out.2.2 := by
  rw [← Cache.fetch_fst]
  exact perform_read hup hfail (.get hk) rfl (fun _ h => by cases h) rfl rfl

/-- The tokens that a read of a key brings, given the live items. -/
def tokensOf (item? : Key → Option Cache.Entry) (k : Key) : List (Key × Token) :=
  (Response.item ((item? k).map (Cache.Entry.shown true))).tokensFor (.gets k)

theorem perform_gets_one (hk : Operation.keyOf c.config (.ofKey k) = .ok k) :
    let out := c.perform Server.network (.gets (.ofKey k)) s
    out.1 = Operation.hit? ((s.cache.live? s.now k).map (Cache.Entry.shown false)) ∧
      Served c s [k] (tokensOf (s.cache.live? s.now) k) out.2.1 out.2.2 := by
  have hshown : Operation.hit? ((s.cache.live? s.now k).map (Cache.Entry.shown true)) =
      Operation.hit? ((s.cache.live? s.now k).map (Cache.Entry.shown false)) := by
    cases s.cache.live? s.now k <;> rfl
  rw [← hshown, tokensOf, ← Cache.fetch_fst]
  exact perform_read hup hfail (.gets hk) rfl (fun _ h => by cases h) rfl
    (Cache.fetch_snd s.now true s.cache k)

/-! ## At once -/

variable {sources : List Key.Source} (hkeys : Operation.keysOf c.config sources = .ok keys)

include hkeys

theorem perform_getMulti :
    let out := c.perform Server.network (.getMulti sources) s
    out.1 = Operation.hits (s.cache.fetchAll s.now false ∅ keys).1 ∧
      Served c s keys [] out.2.1 out.2.2 := by
  cases sources with
  | nil =>
    cases hkeys
    exact ⟨Operation.hits_empty.symm, .refl hup hfail⟩
  | cons source sources =>
    exact perform_read hup hfail (.getMulti hkeys) rfl (fun _ h => by cases h) rfl
      (Cache.fetchAll_snd s.now false s.cache ∅ keys)

theorem perform_getsMulti :
    let out := c.perform Server.network (.getsMulti sources) s
    out.1 = Operation.hits (s.cache.fetchAll s.now false ∅ keys).1 ∧
      Served c s keys
        ((Response.items (s.cache.fetchAll s.now true ∅ keys).1).tokensFor (.getsMulti keys))
        out.2.1 out.2.2 := by
  have hshown : Operation.hits (s.cache.fetchAll s.now true ∅ keys).1 =
      Operation.hits (s.cache.fetchAll s.now false ∅ keys).1 := by
    rw [← Operation.hits_blank, Cache.blank_found, Operation.hits_blank]
  rw [← hshown]
  cases sources with
  | nil =>
    cases hkeys
    exact ⟨Operation.hits_empty.symm, .refl hup hfail⟩
  | cons source sources =>
    exact perform_read hup hfail (.getsMulti hkeys) rfl (fun _ h => by cases h) rfl
      (Cache.fetchAll_snd s.now true s.cache ∅ keys)

end

/-! ## Runs -/

/-- What a read of a key does, on whatever server has these live items. -/
def Reads (config : Config) (item? : Key → Option Cache.Entry) (read : Key → Action)
    (result : ∀ k, (read k).Result) (seen : Key → List (Key × Token)) : Prop :=
  ∀ {k : Key} {c : Client SessionId} {s : Server}, c.config = config →
    s.cache.live? s.now = item? → s.down = false → s.failNext = 0 →
    Operation.keyOf config (.ofKey k) = .ok k →
    (c.act Server.network (read k) s).1 = result k ∧
      Served c s [k] (seen k) (c.act Server.network (read k) s).2.1
        (c.act Server.network (read k) s).2.2

/-- **A run of reads** gives each key what it would give alone. -/
theorem run_reads {config : Config} {item? : Key → Option Cache.Entry} {read : Key → Action}
    {result : ∀ k, (read k).Result} {seen : Key → List (Key × Token)}
    (hread : Reads config item? read result seen) (hconfig : c.config = config)
    (hitems : s.cache.live? s.now = item?) (hup : s.down = false) (hfail : s.failNext = 0)
    (hkeys : ∀ k ∈ keys, Operation.keyOf config (.ofKey k) = .ok k) :
    let out := run Server.network (keys.map read) c s
    out.1 = keys.map (fun k => ⟨read k, result k⟩) ∧
      Served c s keys (keys.flatMap seen) out.2.1 out.2.2 := by
  induction keys generalizing c s with
  | nil => exact ⟨rfl, .refl hup hfail⟩
  | cons k keys ih =>
    obtain ⟨hk, hkeys⟩ := List.forall_mem_cons.1 hkeys
    obtain ⟨hresult, hserved⟩ := hread hconfig hitems hup hfail hk
    obtain ⟨hresults, hrest⟩ := ih (hserved.config.trans hconfig)
      ((funext hserved.live?_eq).trans hitems) hserved.up hserved.failNext hkeys
    refine ⟨?_, hserved.trans hrest⟩
    rw [List.map_cons (f := fun k => (⟨read k, result k⟩ : Σ a : Action, a.Result)), ← hresults,
      ← hresult]
    rfl

theorem reads_get (config : Config) (item? : Key → Option Cache.Entry) :
    Reads config item? (fun k => .perform (.get (.ofKey k)))
      (fun k => Operation.hit? ((item? k).map (Cache.Entry.shown false))) fun _ => [] := by
  intro k c s hconfig hitems hup hfail hk
  subst hconfig hitems
  exact perform_get hup hfail hk

theorem reads_gets (config : Config) (item? : Key → Option Cache.Entry) :
    Reads config item? (fun k => .perform (.gets (.ofKey k)))
      (fun k => Operation.hit? ((item? k).map (Cache.Entry.shown false))) (tokensOf item?) := by
  intro k c s hconfig hitems hup hfail hk
  subst hconfig hitems
  exact perform_gets_one hup hfail hk

/-- The tokens that a batch brings are those of the single reads. -/
theorem mem_tokensFor_batch {now : Nat} {cache : Cache} {entry : Key × Token} :
    entry ∈ keys.flatMap (tokensOf (cache.live? now)) ↔
      entry ∈ (Response.items (cache.fetchAll now true ∅ keys).1).tokensFor (.getsMulti keys) := by
  obtain ⟨a, t⟩ := entry
  have hfound : (cache.fetchAll now true ∅ keys).1[a]?.bind (·.token) =
      if a ∈ keys then (cache.live? now a).map (·.token) else none := by
    rw [Cache.getElem?_fetchAll]
    cases cache.live? now a <;> split <;> simp [Cache.Entry.shown]
  have hone (k : Key) : (a, t) ∈ tokensOf (cache.live? now) k ↔
      k = a ∧ (cache.live? now a).map (·.token) = some t := by
    rw [tokensOf, Response.mem_tokensFor_iff]
    cases hk : cache.live? now k with
    | none =>
      simp only [Option.map_none, Response.tokenFor?, reduceCtorEq, false_iff, not_and]
      rintro rfl
      simp [hk]
    | some i =>
      by_cases hka : k = a
      · subst hka
        simp [Response.tokenFor?, Cache.Entry.shown, hk]
      · simp [Response.tokenFor?, hka]
  rw [Response.mem_tokensFor_iff, Response.tokenFor?, hfound, List.mem_flatMap]
  simp only [hone]
  by_cases hmem : a ∈ keys
  · simp [hmem]
  · simp only [hmem, if_false, reduceCtorEq, iff_false, not_exists, not_and]
    rintro k hk rfl
    exact absurd hk hmem

theorem rememberAll_batch (r : TokenRegistry) (now : Nat) (cache : Cache) (keys : List Key) :
    r.rememberAll (keys.flatMap (tokensOf (cache.live? now))) =
      r.rememberAll
        ((Response.items (cache.fetchAll now true ∅ keys).1).tokensFor (.getsMulti keys)) := by
  refine TokenRegistry.rememberAll_congr (fun _ => mem_tokensFor_batch) ?_ r
  intro k t t' ht ht'
  rw [mem_tokensFor_batch, Response.mem_tokensFor_iff] at ht ht'
  exact Option.some.inj (ht'.symm.trans ht)

/-- Two servers hold the same items, and have counted the same hits and misses. -/
structure SameReads (s s' : Server) : Prop where
  items : s.cache.items = s'.cache.items
  hits : s.cache.hits = s'.cache.hits
  misses : s.cache.misses = s'.cache.misses

theorem Served.sameReads {d : Client SessionId} {t : Server} (h : Served c s keys seen c' s')
    (h' : Served c s keys seen' d t) : SameReads s' t := by
  have hcache : s'.cache.withConnections 0 = t.cache.withConnections 0 :=
    h.cache.trans h'.cache.symm
  have hitems := congrArg Cache.items hcache
  have hhits := congrArg Cache.hits hcache
  have hmisses := congrArg Cache.misses hcache
  exact ⟨hitems, hhits, hmisses⟩

/-- The result of reading keys at once, given the live items and the results of reading each key
alone. -/
structure Gathers (keys : List Key) (item? : Key → Option Cache.Entry)
    (batch : Except Error (KeyMap Value)) (single : Key → Except Error (Option Value)) : Prop where
  /-- If the live items among the keys can be read, there is a map of their values. Alone, a key
  gives the same value, except that an item without bytes counts as none. -/
  values : (∀ k ∈ keys, ∀ i, item? k = some i → ∃ v, Codec.decode i.data i.flags = .ok v) →
    ∃ found : KeyMap Value, batch = .ok found ∧
      (∀ (k : Key) v, found[k]? = some v ↔
        k ∈ keys ∧ ∃ i, item? k = some i ∧ Codec.decode i.data i.flags = .ok v) ∧
      ∀ k ∈ keys,
        single k = .ok (if (item? k).any (·.data ≠ []) then found[k]? else none)
  /-- If one of them cannot be read, there is the error of such an item. -/
  error : ∀ k ∈ keys, ∀ i e, item? k = some i → Codec.decode i.data i.flags = .error e →
    ∃ k ∈ keys, ∃ i e, item? k = some i ∧ Codec.decode i.data i.flags = .error e ∧
      batch = .error e

theorem gathers {now : Nat} {cache : Cache} {single : Key → Except Error (Option Value)}
    (hsingle : ∀ k ∈ keys,
      single k = Operation.hit? ((cache.live? now k).map (Cache.Entry.shown false))) :
    Gathers keys (cache.live? now) (Operation.hits (cache.fetchAll now false ∅ keys).1) single := by
  have hitem (k : Key) (item : Item) : (cache.fetchAll now false ∅ keys).1[k]? = some item ↔
      k ∈ keys ∧ ∃ i, cache.live? now k = some i ∧ i.shown false = item := by
    rw [Cache.getElem?_fetchAll]
    split <;> simp [*]
  constructor
  · intro h
    have hread : ∀ (k : Key) (item : Item), (cache.fetchAll now false ∅ keys).1[k]? = some item →
        ∃ v, Operation.valueOf item = .ok v := by
      intro k item hk
      obtain ⟨hmem, i, hi, rfl⟩ := (hitem k item).1 hk
      exact h k hmem i hi
    obtain ⟨found, hfound, hvalues⟩ := Operation.exists_hits hread
    have hvalue (k : Key) (v : Value) : found[k]? = some v ↔
        k ∈ keys ∧ ∃ i, cache.live? now k = some i ∧ Codec.decode i.data i.flags = .ok v := by
      rw [hvalues]
      constructor
      · rintro ⟨item, hk, hv⟩
        obtain ⟨hmem, i, hi, rfl⟩ := (hitem k item).1 hk
        exact ⟨hmem, i, hi, hv⟩
      · rintro ⟨hmem, i, hi, hv⟩
        exact ⟨i.shown false, (hitem k _).2 ⟨hmem, i, hi, rfl⟩, hv⟩
    refine ⟨found, hfound, hvalue, ?_⟩
    intro k hk
    rw [hsingle k hk]
    cases hi : cache.live? now k with
    | none => rfl
    | some i =>
      obtain ⟨v, hv⟩ := h k hk i hi
      rw [(hvalue k v).2 ⟨hk, i, hi, hv⟩, Option.map_some, Operation.hit?_shown, hv]
      by_cases hempty : i.data = []
      · simp [hempty]
      · simp [hempty, Except.map]
  · intro k hk i e hi herror
    obtain ⟨e', he'⟩ :=
      Operation.exists_hits_eq_error ((hitem k _).2 ⟨hk, i, hi, rfl⟩) herror
    obtain ⟨a, ha, j, hj, hj'⟩ := Operation.exists_of_fetchAll_error he'
    exact ⟨a, ha, j, e', hj, hj', he'⟩

/-- **A batch agrees with single reads**, of a client in any state on a server in any state that is
up and has no timeouts ordered, for any keys that the client accepts, with repetitions. The batch
has the values of single reads. Single reads in a row have the results that they have alone.
Tokens do not matter to results, and a batch with tokens leaves the client with the tokens that
single reads leave it with. The server is left with the same items and the same counts. -/
theorem batch_agrees {sources : List Key.Source} (hup : s.down = false) (hfail : s.failNext = 0)
    (hkeys : Operation.keysOf c.config sources = .ok keys) :
    let batch := c.perform Server.network (.getMulti sources) s
    let batchWithTokens := c.perform Server.network (.getsMulti sources) s
    let singles := run Server.network (sources.map fun x => .perform (.get x)) c s
    let singlesWithTokens := run Server.network (sources.map fun x => .perform (.gets x)) c s
    (Gathers keys (fun k => s.cache.live? s.now k) batch.1
        fun k => (c.perform Server.network (.get (.ofKey k)) s).1) ∧
      singles.1 =
        sources.map (fun x => ⟨.perform (.get x), (c.perform Server.network (.get x) s).1⟩) ∧
      singlesWithTokens.1 =
        sources.map (fun x => ⟨.perform (.gets x), (c.perform Server.network (.get x) s).1⟩) ∧
      batchWithTokens.1 = batch.1 ∧ batchWithTokens.2.1.tokens = singlesWithTokens.2.1.tokens ∧
      SameReads batch.2.2 singles.2.2 ∧ SameReads batchWithTokens.2.2 singlesWithTokens.2.2 := by
  intro batch batchWithTokens singles singlesWithTokens
  obtain ⟨hbatch, hserved⟩ := perform_getMulti hup hfail hkeys
  obtain ⟨hbatchWithTokens, hservedWithTokens⟩ := perform_getsMulti hup hfail hkeys
  have haccepts := Operation.keyOf_of_keysOf hkeys
  obtain rfl := Operation.eq_map_ofKey_of_keysOf_eq_ok hkeys
  have hget : ∀ k ∈ keys, (c.perform Server.network (.get (.ofKey k)) s).1 =
      Operation.hit? ((s.cache.live? s.now k).map (Cache.Entry.shown false)) := fun k hk =>
    (perform_get hup hfail (haccepts k hk)).1
  have hactions (read : Key.Source → Operation) :
      (keys.map Key.Source.ofKey).map (fun x => Action.perform (read x)) =
        keys.map fun k => .perform (read (.ofKey k)) := List.map_map
  -- what the runs of single reads come to
  obtain ⟨hsingles, hone⟩ :=
    run_reads (reads_get c.config (s.cache.live? s.now)) rfl rfl hup hfail haccepts
  obtain ⟨hsinglesWithTokens, honeWithTokens⟩ :=
    run_reads (reads_gets c.config (s.cache.live? s.now)) rfl rfl hup hfail haccepts
  rw [← hactions .get] at hsingles hone
  rw [← hactions .gets] at hsinglesWithTokens honeWithTokens
  refine ⟨?_, ?_, ?_, hbatchWithTokens.trans hbatch.symm, ?_, hserved.sameReads hone,
    hservedWithTokens.sameReads honeWithTokens⟩
  · rw [show batch.1 = _ from hbatch]
    exact gathers hget
  · rw [show singles.1 = _ from hsingles, List.map_map]
    refine List.map_congr_left fun k hk => ?_
    rw [← hget k hk]
    rfl
  · rw [show singlesWithTokens.1 = _ from hsinglesWithTokens, List.map_map]
    refine List.map_congr_left fun k hk => ?_
    rw [← hget k hk]
    rfl
  · rw [hservedWithTokens.tokens, honeWithTokens.tokens, rememberAll_batch]

/-- A key that is asked for twice, one whose item has no bytes and one whose item is past its
deadline. -/
theorem batch_agrees_repeated :
    let a : Key := ⟨[97], List.cons_ne_nil _ _, List.forall_mem_singleton.2 rfl⟩
    let b : Key := ⟨[98], List.cons_ne_nil _ _, List.forall_mem_singleton.2 rfl⟩
    let d : Key := ⟨[100], List.cons_ne_nil _ _, List.forall_mem_singleton.2 rfl⟩
    let items : KeyMap Cache.Entry :=
      ((((∅ : KeyMap Cache.Entry).insert a ⟨[55], 2, 1, none⟩).insert b ⟨[], 0, 2, none⟩).insert d
        ⟨[45], 2, 3, some 10⟩)
    let s : Server := { cache := { items, lastToken := 3 }, now := 10 }
    let c : Client SessionId := .ofConfig { rememberTokens := true }
    let sources : List Key.Source := [.ofKey d, .ofKey a, .ofKey b, .ofKey a]
    let batch := c.perform Server.network (.getsMulti sources) s
    let singles := run Server.network (sources.map fun x => .perform (.gets x)) c s
    (∃ found : KeyMap Value, batch.1 = .ok found ∧ found[a]? = some (.int 7) ∧
      found[b]? = some (.raw []) ∧ found[d]? = none) ∧
      (c.perform Server.network (.get (.ofKey b)) s).1 = .ok none ∧
      batch.2.1.tokens.get? b = some 2 ∧ batch.2.1.tokens = singles.2.1.tokens ∧
      batch.2.2.cache.hits = 3 ∧ batch.2.2.cache.misses = 1 ∧ SameReads batch.2.2 singles.2.2 := by
  intro a b d items s c sources batch singles
  have hkeys : Operation.keysOf c.config sources = .ok [d, a, b, a] := by decide +kernel
  have hd : s.cache.live? s.now d = none := by decide +kernel
  have ha : s.cache.live? s.now a = some ⟨[55], 2, 1, none⟩ := by decide +kernel
  have hb : s.cache.live? s.now b = some ⟨[], 0, 2, none⟩ := by decide +kernel
  have hdecode : Codec.decode [55] 2 = .ok (.int 7) := by decide +kernel
  have hread : ∀ k ∈ [d, a, b, a], ∀ i, s.cache.live? s.now k = some i →
      ∃ v, Codec.decode i.data i.flags = .ok v := by
    simp only [List.forall_mem_cons, List.not_mem_nil, false_imp_iff, implies_true, hd, ha, hb,
      reduceCtorEq, Option.some.injEq, forall_eq', true_and, and_true]
    exact ⟨⟨_, hdecode⟩, ⟨.raw [], rfl⟩, ⟨_, hdecode⟩⟩
  have htoken : batch.2.1.tokens.get? b = some 2 := by decide +kernel
  have hhits : batch.2.2.cache.hits = 3 := by decide +kernel
  have hmisses : batch.2.2.cache.misses = 1 := by decide +kernel
  have hup : s.down = false := rfl
  have hfail : s.failNext = 0 := rfl
  clear_value s c sources
  obtain ⟨hgathers, -, -, hbatch, htokens, -, hsame⟩ := batch_agrees hup hfail hkeys
  obtain ⟨found, hfound, hvalues, hsingle⟩ := hgathers.values hread
  refine ⟨⟨found, hbatch.trans hfound, ?_, ?_, ?_⟩, ?_, htoken, htokens, hhits, hmisses, hsame⟩
  · exact (hvalues a _).2 ⟨by simp, _, ha, hdecode⟩
  · exact (hvalues b _).2 ⟨by simp, _, hb, rfl⟩
  · rw [Option.eq_none_iff_forall_ne_some]
    intro v hv
    obtain ⟨-, i, hi, -⟩ := (hvalues d v).1 hv
    cases hd.symm.trans hi
  · rw [hsingle b (by simp), hb]
    rfl

end Client

end CacheClient
