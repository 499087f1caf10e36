import CacheClient.Operation
import CacheClient.Proofs.Cache
import CacheClient.Proofs.Key

/-!
# The command of an operation

An operation that is not refused becomes the command that it denotes (`denotes_of_command`). The
command names the keys whose sources the operation names, no others (`Denotes.sources_eq`), and
a cache answers it with an error or in the shape that the operation expects
(`Denotes.error_or_answer`). If the answer is an error, the cache holds an item that cannot be read
(`Denotes.exists_item_of_error`).
-/

namespace CacheClient

/-- A chain that succeeds has a first step that succeeds. -/
theorem Except.exists_of_bind_eq_ok {ε α β : Type} {x : Except ε α} {f : α → Except ε β} {b : β}
    (h : x >>= f = .ok b) : ∃ a, x = .ok a ∧ f a = .ok b := by
  cases x with
  | error e => cases h
  | ok a => exact ⟨a, rfl, h⟩

/-- The error says that the bytes of an item are not what its flags promise. -/
def Error.isUnreadable : Error → Bool
  | .type _ | .serialization _ | .compression _ => true
  | .key _ | .value _ | .io _ | .unexpectedResponse _ | .server _ => false

namespace Operation

/-- The sources of keys that an operation names, with repetitions. -/
def sources : Operation → List Key.Source
  | .store _ source .. | .cas source .. | .get source | .gets source | .incr source _
  | .decr source _ | .delete source => [source]
  | .getMulti sources | .getsMulti sources => sources
  | .flushAll | .stats | .version => []

/-- A source gives the key that it holds, if the client's own limit lets it pass. -/
theorem keyOf_eq_ok_iff {config : Config} {source : Key.Source} {k : Key} :
    keyOf config source = .ok k ↔
      source = .ofKey k ∧ Key.Admits config.maxKeyLength k.length := by
  rw [← Key.validate_eq_ok_iff, keyOf]
  cases Key.validate config.maxKeyLength source <;> simp

theorem eq_ofKey_of_keyOf_eq_ok {config : Config} {source : Key.Source} {k : Key}
    (h : keyOf config source = .ok k) : source = .ofKey k :=
  (keyOf_eq_ok_iff.1 h).1

theorem eq_of_keyOf_ofKey_eq_ok {config : Config} {k a : Key}
    (h : keyOf config (.ofKey k) = .ok a) : a = k :=
  (Key.Source.ofKey_inj (eq_ofKey_of_keyOf_eq_ok h)).symm

theorem eq_map_ofKey_of_keysOf_eq_ok {config : Config} {sources : List Key.Source}
    {keys : List Key} (h : keysOf config sources = .ok keys) : sources = keys.map .ofKey := by
  induction sources generalizing keys with
  | nil => cases h; rfl
  | cons source sources ih =>
    obtain ⟨k, hk, h⟩ := Except.exists_of_bind_eq_ok h
    obtain ⟨ks, hks, h⟩ := Except.exists_of_bind_eq_ok h
    cases h
    rw [List.map_cons, ← ih hks, ← eq_ofKey_of_keyOf_eq_ok hk]

theorem keyOf_of_keysOf {config : Config} {sources : List Key.Source} {keys : List Key}
    (h : keysOf config sources = .ok keys) : ∀ k ∈ keys, keyOf config (.ofKey k) = .ok k := by
  induction sources generalizing keys with
  | nil =>
    cases h
    simp
  | cons source sources ih =>
    obtain ⟨k, hk, h⟩ := Except.exists_of_bind_eq_ok h
    obtain ⟨ks, hks, h⟩ := Except.exists_of_bind_eq_ok h
    cases h
    obtain rfl := eq_ofKey_of_keyOf_eq_ok hk
    exact List.forall_mem_cons.2 ⟨hk, ih hks⟩

/-! ## Commands -/

section

variable {config : Config} {token? : Key → Option Token}

/-- The command that stands for an operation, given the tokens that were last seen. -/
inductive Denotes (config : Config) (token? : Key → Option Token) : Operation → Command → Prop
  | store {mode source v options k s} (hk : keyOf config source = .ok k)
      (hs : encodedOf config v options = .ok s) :
      Denotes config token? (.store mode source v options)
        (.store mode k s.data options.ttl s.flags.bits)
  | cas {source v options k s token} (hk : keyOf config source = .ok k)
      (hs : encodedOf config v options = .ok s) (htoken : token? k = some token) :
      Denotes config token? (.cas source v options)
        (.cas k s.data token options.ttl s.flags.bits)
  | casPlain {source v options k s} (hk : keyOf config source = .ok k)
      (hs : encodedOf config v options = .ok s) (htoken : token? k = none) :
      Denotes config token? (.cas source v options)
        (.store .set k s.data options.ttl s.flags.bits)
  | get {source k} (hk : keyOf config source = .ok k) :
      Denotes config token? (.get source) (.get k)
  | gets {source k} (hk : keyOf config source = .ok k) :
      Denotes config token? (.gets source) (.gets k)
  | getMulti {sources keys} (hk : keysOf config sources = .ok keys) :
      Denotes config token? (.getMulti sources) (.getMulti keys)
  | getsMulti {sources keys} (hk : keysOf config sources = .ok keys) :
      Denotes config token? (.getsMulti sources) (.getsMulti keys)
  | incr {source k} (hk : keyOf config source = .ok k) (amount : UInt64) :
      Denotes config token? (.incr source amount) (.incr k amount)
  | decr {source k} (hk : keyOf config source = .ok k) (amount : UInt64) :
      Denotes config token? (.decr source amount) (.decr k amount)
  | delete {source k} (hk : keyOf config source = .ok k) :
      Denotes config token? (.delete source) (.delete k)
  | flushAll : Denotes config token? .flushAll .flushAll
  | stats : Denotes config token? .stats .stats
  | version : Denotes config token? .version .version

/-- Reads of several items are sent if there are any keys. -/
theorem eq_of_sent {keys : List Key} {command sent : Command}
    (h : (pure (if keys.isEmpty then none else some command) : Except Error _) = .ok (some sent)) :
    sent = command := by
  by_cases hempty : keys.isEmpty
  · simp [hempty, pure, Except.pure] at h
  · simp only [hempty, pure, Except.pure, if_false, Except.ok.injEq, Option.some.injEq,
      Bool.false_eq_true] at h
    exact h.symm

theorem denotes_of_command {op : Operation} {command : Command}
    (h : op.command config token? = .ok (some command)) : Denotes config token? op command := by
  cases op with
  | store mode source v options =>
    obtain ⟨k, hk, h⟩ := Except.exists_of_bind_eq_ok h
    obtain ⟨s, hs, h⟩ := Except.exists_of_bind_eq_ok h
    cases h
    exact .store hk hs
  | cas source v options =>
    obtain ⟨k, hk, h⟩ := Except.exists_of_bind_eq_ok h
    obtain ⟨s, hs, h⟩ := Except.exists_of_bind_eq_ok h
    cases h
    cases htoken : token? k with
    | none => exact .casPlain hk hs htoken
    | some token => exact .cas hk hs htoken
  | getMulti sources =>
    obtain ⟨keys, hk, h⟩ := Except.exists_of_bind_eq_ok h
    obtain rfl := eq_of_sent h
    exact .getMulti hk
  | getsMulti sources =>
    obtain ⟨keys, hk, h⟩ := Except.exists_of_bind_eq_ok h
    obtain rfl := eq_of_sent h
    exact .getsMulti hk
  | get source =>
    obtain ⟨k, hk, h⟩ := Except.exists_of_bind_eq_ok h
    cases h
    exact .get hk
  | gets source =>
    obtain ⟨k, hk, h⟩ := Except.exists_of_bind_eq_ok h
    cases h
    exact .gets hk
  | incr source amount =>
    obtain ⟨k, hk, h⟩ := Except.exists_of_bind_eq_ok h
    cases h
    exact .incr hk amount
  | decr source amount =>
    obtain ⟨k, hk, h⟩ := Except.exists_of_bind_eq_ok h
    cases h
    exact .decr hk amount
  | delete source =>
    obtain ⟨k, hk, h⟩ := Except.exists_of_bind_eq_ok h
    cases h
    exact .delete hk
  | flushAll => cases h; exact .flushAll
  | stats => cases h; exact .stats
  | version => cases h; exact .version

/-- A command names the keys that its operation names. -/
theorem Denotes.sources_eq {op : Operation} {command : Command}
    (h : Denotes config token? op command) : op.sources = command.keys.map .ofKey := by
  cases h with
  | getMulti hk => exact eq_map_ofKey_of_keysOf_eq_ok hk
  | getsMulti hk => exact eq_map_ofKey_of_keysOf_eq_ok hk
  | flushAll => rfl
  | stats => rfl
  | version => rfl
  | _ hk => exact congrArg (fun source => [source]) (eq_ofKey_of_keyOf_eq_ok hk)

theorem Denotes.ofKey_mem_sources {op : Operation} {command : Command} {k : Key}
    (h : Denotes config token? op command) (hk : k ∈ command.keys) : .ofKey k ∈ op.sources := by
  rw [h.sources_eq]
  exact List.mem_map_of_mem hk

theorem Denotes.eq_flushAll {op : Operation} (h : Denotes config token? op .flushAll) :
    op = .flushAll := by
  cases h
  rfl

theorem count_response (now : Nat) (change : UInt64 → UInt64) (k : Key) (c : Cache) :
    (∃ text, (c.count now change k).1 = .error text) ∨
      ∃ n, (c.count now change k).1 = .counter n := by
  rw [Cache.count]
  split
  · exact .inr ⟨_, rfl⟩
  · split
    · exact .inl ⟨_, rfl⟩
    · exact .inr ⟨_, rfl⟩

theorem answer?_error (op : Operation) (text : String) : op.answer? (.error text) = none := by
  cases op <;> rfl

theorem outcome_of_answer?_store {mode : StoreMode} {source : Key.Source} {v : Value}
    {options : StoreSettings} {response : Response} {answer : Except Error Bool}
    (h : answer? (.store mode source v options) response = some answer) :
    ∃ status, response = .store status ∧ answer = .ok status.isStored := by
  cases response with
  | store status => exact ⟨status, rfl, (Option.some.inj h).symm⟩
  | _ => cases h

theorem outcome_of_answer?_cas {source : Key.Source} {v : Value} {options : StoreSettings}
    {response : Response} {answer : Except Error Bool}
    (h : answer? (.cas source v options) response = some answer) :
    ∃ status, response = .store status ∧ answer = .ok status.isStored := by
  cases response with
  | store status => exact ⟨status, rfl, (Option.some.inj h).symm⟩
  | _ => cases h

/-- A cache answers with an error, or in the shape that the operation expects. -/
theorem Denotes.error_or_answer {op : Operation} {command : Command}
    (h : Denotes config token? op command) (now : Nat) (c : Cache) :
    (∃ text, (c.apply now command).1 = .error text) ∨
      ∃ answer, op.answer? (c.apply now command).1 = some answer := by
  cases h with
  | @incr source k hk amount =>
    rcases count_response now (· + amount) k c with h | ⟨n, h⟩
    · exact .inl h
    · exact .inr ⟨.ok n, congrArg (answer? (.incr source amount)) h⟩
  | @decr source k hk amount =>
    rcases count_response now (Cache.lower amount) k c with h | ⟨n, h⟩
    · exact .inl h
    · exact .inr ⟨.ok n, congrArg (answer? (.decr source amount)) h⟩
  | _ => exact .inr ⟨_, rfl⟩

end

/-! ## Reading values -/

theorem errorOf?_eq_some {α : Type} {r : Except Error α} {e : Error} :
    errorOf? r = some e ↔ r = .error e := by
  cases r <;> simp [errorOf?]

/-- A single item is given as its value, unless it has no bytes. -/
theorem hit?_shown (withToken : Bool) (i : Cache.Entry) :
    hit? (some (i.shown withToken)) =
      if i.data = [] then .ok none else (Codec.decode i.data i.flags).map some := by
  by_cases h : i.data = []
  · simp [hit?, Cache.Entry.shown, h]
  · simp [hit?, Cache.Entry.shown, valueOf, h]

/-- What a read of one item finds is a live item with bytes that can be read. -/
theorem hit?_eq_some_iff {withToken : Bool} {live? : Option Cache.Entry} {v : Value} :
    hit? (live?.map (Cache.Entry.shown withToken)) = .ok (some v) ↔
      ∃ i, live? = some i ∧ i.data ≠ [] ∧ Codec.decode i.data i.flags = .ok v := by
  cases live? with
  | none => simp [hit?]
  | some i =>
    rw [Option.map_some, hit?_shown]
    by_cases h : i.data = []
    · simp [h]
    · cases hdecode : Codec.decode i.data i.flags <;> simp [h, hdecode, Except.map]

theorem exists_of_hit?_eq_error {withToken : Bool} {live? : Option Cache.Entry} {error : Error}
    (h : hit? (live?.map (Cache.Entry.shown withToken)) = .error error) :
    ∃ i, live? = some i ∧ Codec.decode i.data i.flags = .error error := by
  cases live? with
  | none => cases h
  | some i =>
    refine ⟨i, rfl, ?_⟩
    rw [Option.map_some, hit?_shown] at h
    split at h
    · cases h
    · cases hdecode : Codec.decode i.data i.flags <;> simp_all [Except.map]

theorem exists_of_hits_eq_error {items : KeyMap Item} {error : Error}
    (h : hits items = .error error) :
    ∃ (k : Key) (item : Item), items[k]? = some item ∧ valueOf item = .error error := by
  rw [hits] at h
  split at h
  · next e hfound =>
    cases h
    obtain ⟨⟨k, item⟩, hmem, herror⟩ := List.exists_of_findSome?_eq_some hfound
    exact ⟨k, item, Std.ExtTreeMap.mem_toList_iff_getElem?_eq_some.1 hmem,
      errorOf?_eq_some.1 herror⟩
  · cases h

theorem exists_of_fetchAll_error {now : Nat} {withToken : Bool} {c : Cache} {keys : List Key}
    {error : Error} (h : hits (c.fetchAll now withToken ∅ keys).1 = .error error) :
    ∃ k ∈ keys, ∃ i, c.live? now k = some i ∧ Codec.decode i.data i.flags = .error error := by
  obtain ⟨k, item, hitem, herror⟩ := exists_of_hits_eq_error h
  rw [Cache.getElem?_fetchAll] at hitem
  split at hitem
  · next hk =>
    rw [Std.ExtTreeMap.getElem?_empty, Option.or_none, Option.map_eq_some_iff] at hitem
    obtain ⟨i, hi, rfl⟩ := hitem
    exact ⟨k, hk, i, hi, herror⟩
  · simp at hitem

/-- A read that ends in an error has found an item that cannot be read. -/
theorem Denotes.exists_item_of_error {config : Config} {token? : Key → Option Token}
    {op : Operation} {command : Command} (h : Denotes config token? op command) {now : Nat}
    {c : Cache} {error : Error}
    (herror : op.answer? (c.apply now command).1 = some (.error error)) :
    ∃ k ∈ command.keys, ∃ i, c.live? now k = some i ∧
      Codec.decode i.data i.flags = .error error := by
  cases h with
  | @get source k hk =>
    have hhit : hit? (c.fetch now false k).1 = .error error := Option.some.inj herror
    rw [Cache.fetch_fst] at hhit
    exact ⟨k, List.mem_singleton_self k, exists_of_hit?_eq_error hhit⟩
  | @gets source k hk =>
    have hhit : hit? (c.fetch now true k).1 = .error error := Option.some.inj herror
    rw [Cache.fetch_fst] at hhit
    exact ⟨k, List.mem_singleton_self k, exists_of_hit?_eq_error hhit⟩
  | getMulti hk => exact exists_of_fetchAll_error (Option.some.inj herror)
  | getsMulti hk => exact exists_of_fetchAll_error (Option.some.inj herror)
  | incr hk amount =>
    generalize (c.apply now _).1 = response at herror
    cases response <;> cases herror
  | decr hk amount =>
    generalize (c.apply now _).1 = response at herror
    cases response <;> cases herror
  | _ => cases herror

end Operation

end CacheClient
