import CacheClient.Proofs.Cache.Figures
import CacheClient.Proofs.Cache.Frame
import CacheClient.Proofs.Cache.Mirrors
import CacheClient.Proofs.Client.Notices
import CacheClient.Proofs.Connection.Availability
import CacheClient.Proofs.Connection.Sharing

/-!
# Clients that see the same

A client on a server in memory, and a client with the same settings on another, see the same if
the caches mirror each other for the keys that the clients name (`Alike`). The answer to an
operation does not show tokens (`Operation.answer?_blank`). A key whose token is remembered on one
side has one on the other, so that conditional stores ask for one on both sides or on neither
(`Operation.prepared`).

Main result: `alike_act`. What happens to other keys on one of the servers is not seen:
`alike_of_apart`.
-/

namespace CacheClient

open Server

/-! ## Answers -/

namespace Operation

theorem hit?_blank (item? : Option Item) : hit? (item?.map Item.blank) = hit? item? := by
  cases item? <;> rfl

theorem hits_blank (items : KeyMap Item) : hits (items.map fun _ i => i.blank) = hits items := by
  have herror : ((items.map fun _ i => i.blank).toList.findSome? fun entry =>
      errorOf? (valueOf entry.2)) =
        items.toList.findSome? fun entry => errorOf? (valueOf entry.2) := by
    rw [Std.ExtTreeMap.toList_map, List.findSome?_map]
    rfl
  have hvalues : ((items.map fun _ i => i.blank).filterMap fun _ i => (valueOf i).toOption) =
      items.filterMap fun _ i => (valueOf i).toOption := by
    apply Std.ExtTreeMap.ext_getElem?
    intro k
    simp only [Std.ExtTreeMap.getElem?_filterMap', Std.ExtTreeMap.getElem?_map, Option.bind_map]
    rfl
  rw [hits, hits, herror, hvalues]

theorem answer?_blank (op : Operation) (r : Response) : op.answer? r.blank = op.answer? r := by
  cases r with
  | item item? =>
    cases op with
    | get source | gets source => exact congrArg some (hit?_blank item?)
    | _ => rfl
  | items found =>
    cases op with
    | getMulti sources | getsMulti sources => exact congrArg some (hits_blank found)
    | _ => rfl
  | _ => rfl

/-- The result of an operation whose command was carried out. -/
def Tells (op : Operation) (r : Response) (result : Except Error op.Answer) : Prop :=
  (∃ text, r = .error text ∧ result = .error (.server text)) ∨ op.answer? r = some result

theorem eq_of_tells {op : Operation} {r r' : Response} {result result' : Except Error op.Answer}
    (hblank : r.blank = r'.blank) (h : op.Tells r result) (h' : op.Tells r' result') :
    result = result' := by
  have hanswer : op.answer? r = op.answer? r' := by
    rw [← answer?_blank, hblank, answer?_blank]
  have hrefused : ∀ {r : Response} {text}, r.blank = .error text → r = .error text := by
    intro r text h
    cases r <;> first | exact h | cases h
  rcases h with ⟨text, rfl, rfl⟩ | h
  · obtain rfl := hrefused hblank.symm
    rcases h' with ⟨text', heq, rfl⟩ | h'
    · cases heq
      rfl
    · cases (answer?_error op text).symm.trans h'
  · rcases h' with ⟨text, rfl, rfl⟩ | h'
    · cases (answer?_error op text).symm.trans (hanswer.symm.trans h)
    · exact Option.some.inj (h.symm.trans (hanswer.trans h'))

/-! ## Commands -/

variable {config : Config} {w w' : Key → Option Token} {op : Operation}

/-- The outcomes of preparing an operation with the tokens of two sides. -/
inductive Prepared (op : Operation) (config : Config) (w w' : Key → Option Token) : Prop
  | invalid {e} (h : op.command config w = .error e) (h' : op.command config w' = .error e)
  | void (h : op.command config w = .ok none) (h' : op.command config w' = .ok none)
  | sent {command command'} (h : op.command config w = .ok (some command))
      (h' : op.command config w' = .ok (some command'))
      (hcommand : Cache.Counterpart w w' command command')

/-- An operation whose command does not depend on tokens. -/
theorem prepared_of_eq (h : op.command config w = op.command config w')
    (hcas : ∀ source v options, op ≠ .cas source v options) : Prepared op config w w' := by
  cases hcommand : op.command config w with
  | error e => exact .invalid hcommand (h.symm.trans hcommand)
  | ok command? =>
    cases command? with
    | none => exact .void hcommand (h.symm.trans hcommand)
    | some command =>
      refine .sent hcommand (h.symm.trans hcommand) (.same ?_)
      rintro k data token ttl flags rfl
      cases denotes_of_command hcommand
      exact hcas _ _ _ rfl

/-- **Both sides send the same command**, each with its own token, if they remember tokens for the
same of the keys. -/
theorem prepared (hknown : ∀ k, .ofKey k ∈ op.sources → (w k).isSome = (w' k).isSome) :
    Prepared op config w w' := by
  cases op with
  | cas source v options =>
    cases hk : keyOf config source with
    | error e =>
      have h : ∀ u, (cas source v options).command config u = .error e := by
        simp [command, hk, bind, Except.bind]
      exact .invalid (h w) (h w')
    | ok k =>
      cases hs : encodedOf config v options with
      | error e =>
        have h : ∀ u, (cas source v options).command config u = .error e := by
          simp [command, hk, hs, bind, Except.bind]
        exact .invalid (h w) (h w')
      | ok s =>
        have hsome := hknown k (by simp [sources, eq_ofKey_of_keyOf_eq_ok hk])
        cases hw : w k with
        | none =>
          have hw' : w' k = none := by simpa [hw] using hsome
          exact .sent ((Denotes.casPlain hk hs hw).command_eq rfl)
            ((Denotes.casPlain hk hs hw').command_eq rfl) (.same (by simp))
        | some token =>
          obtain ⟨token', hw'⟩ : ∃ token', w' k = some token' := by
            rw [hw, Option.isSome_some] at hsome
            exact Option.isSome_iff_exists.1 hsome.symm
          exact .sent ((Denotes.cas hk hs hw).command_eq rfl)
            ((Denotes.cas hk hs hw').command_eq rfl) (.cas hw hw' s.data options.ttl s.flags.bits)
  | _ => exact prepared_of_eq rfl (by simp)

end Operation

/-! ## Tokens -/

/-- Whether a command reads a key with its token. -/
def Command.asksFor (k : Key) : Command → Bool
  | .gets a => a = k
  | .getsMulti keys => k ∈ keys
  | _ => false

namespace Cache

theorem tokenFor?_apply (now : Nat) (command : Command) (c : Cache) (k : Key) :
    (c.apply now command).1.tokenFor? command k =
      if command.asksFor k then (c.apply now command).2.items[k]?.map Entry.token else none := by
  cases command with
  | gets a =>
    have hself := (touched_fetch now true a c).self
    show (Response.item (c.fetch now true a).1).tokenFor? (.gets a) k =
      if decide (a = k) then (c.fetch now true a).2.items[k]?.map Entry.token else none
    rw [fetch_fst]
    by_cases ha : a = k
    · subst ha
      rw [if_pos (by simp), hself]
      cases c.live? now a <;> simp [Response.tokenFor?, Entry.shown]
    · rw [if_neg (by simp [ha])]
      cases c.live? now a <;> simp [Response.tokenFor?, ha]
  | getsMulti keys =>
    show (c.fetchAll now true ∅ keys).1[k]?.bind (·.token) =
      if decide (k ∈ keys) then (c.fetchAll now true ∅ keys).2.items[k]?.map Entry.token else none
    rw [getElem?_fetchAll]
    by_cases hk : k ∈ keys
    · rw [if_pos hk, if_pos (by simp [hk]), getElem?_fetchAll_of_mem c now hk]
      cases c.live? now k <;> simp [Entry.shown]
    · simp [hk]
  | _ => rfl

variable {own : Key → Prop} {w w' : Key → Option Token} {c c' : Cache}

theorem Mirrors.remember {r r' : TokenRegistry} {now : Nat} {command command' : Command}
    (h : Mirrors own r.get? r'.get? (c.apply now command).2 (c'.apply now command').2)
    (henabled : r.enabled = r'.enabled) (hcommand : Counterpart w w' command command') :
    Mirrors own (r.rememberAll ((c.apply now command).1.tokensFor command)).get?
      (r'.rememberAll ((c'.apply now command').1.tokensFor command')).get?
      (c.apply now command).2 (c'.apply now command').2 where
  lastToken_le := h.lastToken_le
  twin k hk := by
    have ht := h.twin k hk
    have hasks : command.asksFor k = command'.asksFor k := by cases hcommand <;> rfl
    simp only [TokenRegistry.get?_rememberAll_tokensFor, tokenFor?_apply, hasks, henabled]
    by_cases hon : r'.enabled = true
    · by_cases hask : command'.asksFor k = true
      · simp only [hon, hask, if_true]
        exact ht.remember
      · simpa [hon, hask] using ht
    · simpa [hon] using ht

theorem Mirrors.forget (h : Mirrors own w w' c c') :
    Mirrors own (fun _ => none) (fun _ => none) c c' where
  lastToken_le := h.lastToken_le
  twin k hk := (h.twin k hk).forget

end Cache

namespace Server

variable {s s' t t' : Server} {command command' : Command} {r r' : Response}

theorem Carried.get?_rememberAll (h : Carried s ⟨command, r⟩ s') {k : Key} (hk : k ∉ command.keys)
    (registry : TokenRegistry) :
    (registry.rememberAll (r.tokensFor command)).get? k = registry.get? k := by
  refine TokenRegistry.get?_rememberAll_of_forall_ne (fun entry hentry hne => hk ?_) registry
  obtain ⟨u, -, hresponse, -⟩ := h
  rw [show r = _ from hresponse] at hentry
  rw [← hne]
  exact (Cache.live?_of_mem_tokensFor hentry).1

theorem Carried.getElem?_items (h : Carried s ⟨command, r⟩ s') {k : Key} (hk : k ∉ command.keys)
    (hflush : command ≠ .flushAll) : s'.cache.items[k]? = s.cache.items[k]? := by
  obtain ⟨_, -, hcache⟩ := h.moves.carried rfl
  rw [hcache]
  exact Cache.getElem?_apply _ s.now hk hflush

theorem Carried.version_eq (h : Carried s ⟨command, r⟩ s') :
    s'.cache.version = s.cache.version := by
  obtain ⟨_, -, hcache⟩ := h.moves.carried rfl
  rw [hcache]
  exact Cache.version_apply s.now command _

/-- Commands that are carried out on servers that look the same have the same response, up to
tokens, and the servers look the same afterwards to those who remember the responses. -/
theorem mirrors_carried {own : Key → Prop} {x y : TokenRegistry}
    (h : Cache.Mirrors own x.get? y.get? s.cache t.cache) (henabled : x.enabled = y.enabled)
    (hnow : s.now = t.now) (hversion : s.cache.version = t.cache.version)
    (hcommand : Cache.Counterpart x.get? y.get? command command')
    (hkeys : ∀ k ∈ command.keys, own k) (hstats : command ≠ .stats)
    (hs : Carried s ⟨command, r⟩ s') (ht : Carried t ⟨command', r'⟩ t')
    (hle : s.cache.lastToken ≤ s'.cache.lastToken) :
    r.blank = r'.blank ∧
      Cache.Mirrors own (x.rememberAll (r.tokensFor command)).get?
        (y.rememberAll (r'.tokensFor command')).get? s'.cache t'.cache := by
  obtain ⟨n, hr, hcache⟩ := hs.moves.carried rfl
  obtain ⟨n', hr', hcache'⟩ := ht.moves.carried rfl
  dsimp only at hr hr' hcache hcache'
  rw [← hnow] at hr' hcache'
  have hcounted : Cache.Mirrors own x.get? y.get? { s.cache with connections := n }
      { t.cache with connections := n' } := ⟨h.lastToken_le, h.twin⟩
  rw [hcache] at hle
  obtain ⟨hblank, hafter⟩ :=
    Cache.mirrors_apply hcounted hcommand hkeys hstats hversion s.now hle
  rw [hr, hr', hcache, hcache']
  exact ⟨hblank, hafter.remember henabled hcommand⟩

end Server

/-! ## Clients -/

namespace Client

/-- Two clients, each on its server, see the same as long as they stick to certain keys. -/
structure Alike (own : Key → Prop) (x : Client SessionId) (s : Server) (y : Client SessionId)
    (t : Server) : Prop where
  config : x.config = y.config
  state : x.connection.state = y.connection.state
  enabled : x.tokens.enabled = y.tokens.enabled
  foreign : ∀ k, ¬own k → x.tokens.get? k = none ∧ y.tokens.get? k = none
  mirrors : Cache.Mirrors own x.tokens.get? y.tokens.get? s.cache t.cache
  now : s.now = t.now
  version : s.cache.version = t.cache.version

theorem Alike.isSome_token? {own : Key → Prop} {x y : Client SessionId} {s t : Server}
    (h : Alike own x s y t) (source : Key.Source) :
    (x.token? source).isSome = (y.token? source).isSome := by
  rw [token?, token?]
  split
  · next k _ =>
    by_cases hk : own k
    · exact (h.mirrors.twin k hk).known
    · obtain ⟨hx, hy⟩ := h.foreign k hk
      rw [hx, hy]
  · rfl

/-- What an action does to the connection of a client and to a server that is available. -/
structure Visit (c : Client SessionId) (s : Server) (c' : Client SessionId) (s' : Server) :
    Prop where
  handled : Connection.Handled c.connection s c'.connection s'
  available : s'.obstacle? = none
  now : s'.now = s.now
  version : s'.cache.version = s.cache.version

variable {own : Key → Prop} {x y c : Client SessionId} {s s' t t' : Server} {op : Operation}
  {command : Command} {a : Action}

theorem Visit.of_quiet {c' : Client SessionId} (he : s.obstacle? = none) (hs : Quiet s s')
    (h : Connection.Handled c.connection s c'.connection s') : Visit c s c' s' := by
  obtain ⟨_, _, _, rfl⟩ := hs
  exact ⟨h, he, rfl, rfl⟩

theorem perform_of_seated (h : op.command c.config c.tokens.get? = .ok (some command))
    (hc : c.connection.Seated s) (he : s.obstacle? = none) :
    ∃ r connection s' result, Carried s ⟨command, r⟩ s' ∧
      Connection.Raised c.connection s connection s' ∧ op.Tells r result ∧
      c.perform Server.network op s = (result,
        { c with connection, tokens := c.tokens.rememberAll (r.tokensFor command) }, s') := by
  obtain ⟨hup, hfail⟩ := obstacle?_eq_none_iff.1 he
  obtain ⟨r, connection, s', hexec, hcarried, hraised⟩ :=
    Connection.execute_of_seated command hc hup hfail
  rcases performed_of_carried h hexec hcarried with
    ⟨text, rfl, hperform⟩ | ⟨answer, ha, hperform⟩
  · have hnone : (Response.error text).tokensFor command = [] := by cases command <;> rfl
    refine ⟨_, connection, s', _, hcarried, hraised, .inl ⟨text, rfl, rfl⟩, ?_⟩
    rw [hperform, hnone]
    rfl
  · exact ⟨r, connection, s', answer, hcarried, hraised, .inr ha, hperform⟩

theorem alike_perform (h : Alike own x s y t) (hx : x.connection.Seated s)
    (hy : y.connection.Seated t) (hs : s.obstacle? = none) (ht : t.obstacle? = none)
    (hstats : op ≠ .stats) (hkeys : ∀ k, .ofKey k ∈ op.sources → own k)
    (hle : s.cache.lastToken ≤ (x.perform Server.network op s).2.2.cache.lastToken) :
    (x.perform Server.network op s).1 = (y.perform Server.network op t).1 ∧
      Alike own (x.perform Server.network op s).2.1 (x.perform Server.network op s).2.2
        (y.perform Server.network op t).2.1 (y.perform Server.network op t).2.2 := by
  have hprepared : op.Prepared x.config x.tokens.get? y.tokens.get? :=
    Operation.prepared fun k hk => (h.mirrors.twin k (hkeys k hk)).known
  cases hprepared with
  | invalid hl hr | void hl hr =>
    rw [h.config] at hr
    rw [perform, perform, hl, hr]
    exact ⟨rfl, h⟩
  | @sent command command' hl hr hcommand =>
    have hdenotes := Operation.denotes_of_command hl
    have hdenotes' := Operation.denotes_of_command hr
    have hown : ∀ k ∈ command.keys, own k :=
      fun k hk => hkeys k (hdenotes.ofKey_mem_sources hk)
    have hown' : ∀ k ∈ command'.keys, own k :=
      fun k hk => hkeys k (hdenotes'.ofKey_mem_sources hk)
    have hnotstats : command ≠ .stats := by
      rintro rfl
      cases hdenotes
      exact hstats rfl
    rw [h.config] at hr
    obtain ⟨r, connection, s', result, hcarried, hraised, htells, hperform⟩ :=
      perform_of_seated hl hx hs
    obtain ⟨r', connection', t', result', hcarried', hraised', htells', hperform'⟩ :=
      perform_of_seated hr hy ht
    rw [hperform] at hle ⊢
    rw [hperform']
    obtain ⟨hblank, hmirrors⟩ := mirrors_carried h.mirrors h.enabled h.now h.version hcommand hown
      hnotstats hcarried hcarried' hle
    refine ⟨Operation.eq_of_tells hblank htells htells', h.config, ?_, ?_, ?_, hmirrors, ?_, ?_⟩
    · -- whatever the session was before, there is one after a command
      exact hraised.connected.trans hraised'.connected.symm
    · dsimp only
      rw [TokenRegistry.enabled_rememberAll, TokenRegistry.enabled_rememberAll, h.enabled]
    · intro k hk
      dsimp only
      rw [hcarried.get?_rememberAll fun hmem => hk (hown k hmem),
        hcarried'.get?_rememberAll fun hmem => hk (hown' k hmem)]
      exact h.foreign k hk
    · exact hcarried.frame.1.trans (h.now.trans hcarried'.frame.1.symm)
    · exact hcarried.version_eq.trans (h.version.trans hcarried'.version_eq.symm)

/-- Handling the session of each changes nothing else. -/
theorem Alike.of_quiet (h : Alike own x s y t) (hs : Quiet s s') (ht : Quiet t t')
    {connection connection' : Connection SessionId}
    (hstate : connection.state = connection'.state) :
    Alike own { x with connection } s' { y with connection := connection' } t' := by
  obtain ⟨_, _, _, rfl⟩ := hs
  obtain ⟨_, _, _, rfl⟩ := ht
  exact { h with state := hstate, mirrors := ⟨h.mirrors.lastToken_le, h.mirrors.twin⟩ }

theorem connect_of_seated (hc : c.connection.Seated s) (he : s.obstacle? = none)
    (reconnect : Bool) :
    ∃ connection s', c.connect Server.network reconnect s = (.ok (), { c with connection }, s') ∧
      Quiet s s' ∧ Connection.Raised c.connection s connection s' := by
  obtain ⟨connection, s', hconnect, hraised⟩ :=
    Connection.raised_connect hc (obstacle?_eq_none_iff.1 he).1 reconnect
  have hquiet := Connection.quiet_connect reconnect c.connection s
  rw [hconnect] at hquiet
  refine ⟨connection, s', ?_, hquiet, hraised⟩
  rw [connect, hconnect]

theorem isConnected_of_seated (hc : c.connection.Seated s) :
    c.isConnected Server.network s = (c.connection.connected, c, s) := by
  rw [isConnected, Connection.probe_of_seated hc]
  cases hc with
  | away hstate hs => simp [hs, Connection.connected, hstate]
  | held hstate hs hid => simp [hs, Connection.connected, hstate]

/-- **An action has the same result on both sides**, and they see the same afterwards. -/
theorem alike_act (h : Alike own x s y t) (hx : x.connection.Seated s)
    (hy : y.connection.Seated t) (hs : s.obstacle? = none) (ht : t.obstacle? = none)
    (ha : ∀ op, a = .perform op → op ≠ .stats ∧ ∀ k, .ofKey k ∈ op.sources → own k)
    (hle : s.cache.lastToken ≤ (x.act Server.network a s).2.2.cache.lastToken) :
    (x.act Server.network a s).1 = (y.act Server.network a t).1 ∧
      Alike own (x.act Server.network a s).2.1 (x.act Server.network a s).2.2
        (y.act Server.network a t).2.1 (y.act Server.network a t).2.2 := by
  cases a with
  | perform op => exact alike_perform h hx hy hs ht (ha op rfl).1 (ha op rfl).2 hle
  | connect reconnect =>
    obtain ⟨connection, s', hconnect, hquiet, hraised⟩ := connect_of_seated hx hs reconnect
    obtain ⟨connection', t', hconnect', hquiet', hraised'⟩ := connect_of_seated hy ht reconnect
    rw [act, act, hconnect, hconnect']
    exact ⟨rfl, h.of_quiet hquiet hquiet' (hraised.connected.trans hraised'.connected.symm)⟩
  | close =>
    have hstate : ∀ (c : Client SessionId) s,
        (c.connection.close Server.network s).1.state = .disconnected :=
      fun c s => congrArg Connection.state (Connection.close_eq c.connection s).1
    exact ⟨rfl, h.of_quiet (Connection.quiet_close x.connection s)
      (Connection.quiet_close y.connection t) ((hstate x s).trans (hstate y t).symm)⟩
  | isConnected =>
    rw [act, act, isConnected_of_seated hx, isConnected_of_seated hy]
    exact ⟨congrArg (· == ConnectionState.connected) h.state, h⟩
  | setRemembering on => exact ⟨rfl, { h with enabled := rfl }⟩
  | resetTokens =>
    have hnone : ∀ r : TokenRegistry, r.reset.get? = fun _ => none :=
      fun r => funext r.get?_reset
    refine ⟨rfl, { h with foreign := ?_, mirrors := ?_ }⟩
    · intro k _
      exact ⟨x.tokens.get?_reset k, y.tokens.get?_reset k⟩
    · show Cache.Mirrors own x.tokens.reset.get? y.tokens.reset.get? s.cache t.cache
      rw [hnone, hnone]
      exact h.mirrors.forget

/-! ## Other clients -/

theorem visit_act (hc : c.connection.Seated s) (he : s.obstacle? = none) (a : Action) :
    Visit c s (c.act Server.network a s).2.1 (c.act Server.network a s).2.2 := by
  cases a with
  | perform op =>
    show Visit c s (c.perform Server.network op s).2.1 (c.perform Server.network op s).2.2
    cases h : op.command c.config c.tokens.get? with
    | error e =>
      rw [perform, h]
      exact .of_quiet he (.refl s) (.refl hc)
    | ok command? =>
      cases command? with
      | none =>
        rw [perform, h]
        exact .of_quiet he (.refl s) (.refl hc)
      | some command =>
        obtain ⟨r, connection, s', result, hcarried, hraised, -, hperform⟩ :=
          perform_of_seated h hc he
        obtain ⟨hnow, hdown, hfail⟩ := hcarried.frame
        rw [hperform]
        refine ⟨hraised.toHandled, ?_, hnow, hcarried.version_eq⟩
        rwa [obstacle?, hdown, hfail]
  | connect reconnect =>
    obtain ⟨connection, s', hconnect, hquiet, hraised⟩ := connect_of_seated hc he reconnect
    rw [act, hconnect]
    exact .of_quiet he hquiet hraised.toHandled
  | close =>
    exact .of_quiet he (Connection.quiet_close c.connection s)
      (Connection.handled_close c.connection s)
  | isConnected =>
    rw [act, isConnected_of_seated hc]
    exact .of_quiet he (.refl s) (.refl hc)
  | setRemembering on | resetTokens => exact .of_quiet he (.refl s) (.refl hc)

/-- An action that does not name a key leaves its item as it is, unless it removes everything. -/
theorem getElem?_items_act {k : Key}
    (ha : ∀ op, a = .perform op → op ≠ .flushAll ∧ .ofKey k ∉ op.sources)
    (c : Client SessionId) (s : Server) :
    (c.act Server.network a s).2.2.cache.items[k]? = s.cache.items[k]? := by
  have hquiet : ∀ {s'}, Quiet s s' → s'.cache.items[k]? = s.cache.items[k]? := by
    rintro _ ⟨_, _, _, rfl⟩
    rfl
  cases a with
  | perform op =>
    obtain ⟨hflush, hk⟩ := ha op rfl
    have hcarried : ∀ {command r s'}, op.command c.config c.tokens.get? = .ok (some command) →
        Carried s ⟨command, r⟩ s' → s'.cache.items[k]? = s.cache.items[k]? := by
      intro command r s' hcommand h
      have hdenotes := Operation.denotes_of_command hcommand
      refine h.getElem?_items (fun hmem => hk (hdenotes.ofKey_mem_sources hmem)) ?_
      rintro rfl
      exact hflush hdenotes.eq_flushAll
    have hp := performed op c s
    show (c.perform Server.network op s).2.2.cache.items[k]? = _
    generalize c.perform Server.network op s = out at hp
    obtain ⟨result, c', s'⟩ := out
    cases hp with
    | invalid h | void h => rfl
    | failed h hs hr =>
      obtain ⟨_, _, _, _, rfl⟩ := hs
      rfl
    | refused h hs => exact hcarried h hs
    | answered h hs ha => exact hcarried h hs
  | connect reconnect => exact hquiet (quiet_connect reconnect c s)
  | close => exact hquiet (Connection.quiet_close c.connection s)
  | isConnected => exact hquiet (quiet_isConnected c s)
  | setRemembering on | resetTokens => rfl

/-- What happens to one server without touching the keys is not seen. -/
theorem alike_of_apart (h : Alike own x s y t)
    (hitems : ∀ k, own k → s'.cache.items[k]? = s.cache.items[k]?)
    (hle : s.cache.lastToken ≤ s'.cache.lastToken) (hnow : s'.now = s.now)
    (hversion : s'.cache.version = s.cache.version) : Alike own x s' y t :=
  { h with
    now := hnow.trans h.now
    version := hversion.trans h.version
    mirrors := by
      refine ⟨UInt64.le_trans h.mirrors.lastToken_le hle, fun k hk => ?_⟩
      rw [hitems k hk]
      exact (h.mirrors.twin k hk).later hle (UInt64.le_refl _) }

end Client

end CacheClient
