import CacheClient.Proofs.Client.Notices
import CacheClient.Proofs.Client.Sending

/-!
# What a client remembers

The tokens of a client are the fold of what it has noticed (`tokens_run`). Apart from what it is
told about tokens, these are the responses to its commands and nothing else. It does not matter what
was asked for, whether the items in a response could be read, which calls failed, and what became of
the session.

Main result: `remembers_latest`.
-/

namespace CacheClient

open Log

/-! ## Calls -/

/-- What there is to be noticed of a call: the response to a command. -/
def Observation.notice? (o : Observation) : Option Client.Notice :=
  match o.call, o.outcome with
  | .execute command, .responded response => some (.responded command response)
  | _, _ => none

/-- What there is to be noticed of some calls. -/
def Log.notices (calls : List Observation) : List Client.Notice := calls.filterMap (·.notice?)

@[simp] theorem Log.notices_append (xs ys : List Observation) :
    notices (xs ++ ys) = notices xs ++ notices ys :=
  List.filterMap_append

theorem Log.notices_eq_nil {calls : List Observation} (h : executes calls = []) :
    notices calls = [] := by
  refine List.filterMap_eq_nil_iff.2 ?_
  rintro ⟨n, call, outcome⟩ ho
  have hnone : call.command? = none := List.filterMap_eq_nil_iff.1 h _ ho
  cases call with
  | execute command => cases hnone
  | _ => rfl

theorem Connection.connect_executes {σ τ : Type} (net : Network σ τ) (reconnect : Bool)
    (c : Connection (Nat × τ)) (w : Observed σ) :
    ∃ calls, w.Extends calls (c.connect net.recorded reconnect w).2.2 ∧ executes calls = [] := by
  rw [connect]
  split
  · exact ⟨[], .refl w, rfl⟩
  · obtain ⟨calls, h, hext⟩ := renew_spec net c w
    refine ⟨_, hext, ?_⟩
    rw [executes_append, executes_closing, h.executes_eq]
    rfl

namespace Connection.Executed

variable {τ : Type} {c c' : Connection (Nat × τ)} {n : Nat} {command : Command}
  {calls : List Observation}

theorem notices_of_error {e : IoError} (h : Executed c n command calls (.error e) c') :
    notices calls = [] := by
  cases h with
  | unready h => exact notices_eq_nil h.executes_eq
  | failed h hs e =>
    rw [notices_append, notices_eq_nil h.executes_eq]
    rfl

theorem notices_of_ok {response : Response} (h : Executed c n command calls (.ok response) c') :
    notices calls = [.responded command response] := by
  cases h with
  | answered h hs response =>
    rw [notices_append, notices_eq_nil h.executes_eq]
    rfl

end Connection.Executed

namespace Client

variable {σ τ : Type}

/-- What a client notices in carrying out an action with these calls. -/
def Action.notices (calls : List Observation) : Action → List Notice
  | .setRemembering on => [.remembering on]
  | .resetTokens => [.reset]
  | _ => Log.notices calls

/-- What a client remembers after an operation is settled by the responses it got, whether it could
use them or not. -/
theorem Sent.tokens_eq {op : Operation} {command : Command} {c c' : Client (Nat × τ)} {n : Nat}
    {calls : List Observation} {result : Except Error op.Answer}
    (hdenotes : op.Denotes c.config c.tokens.get? command)
    (h : Sent op command c n calls result c') :
    c'.tokens = (Log.notices calls).foldl Notice.apply c.tokens := by
  have hmisshapen : ∀ response, op.answer? response = none →
      c.tokens = c.tokens.rememberAll (response.tokensFor command) := by
    intro response hshape
    have hexpects : command.expects response = false := by
      rw [← hdenotes.isSome_answer?, hshape]
      rfl
    rw [Response.tokensFor_eq_nil hexpects]
    rfl
  cases h with
  | failed h =>
    rw [h.notices_of_error]
    rfl
  | misshapen h hs hshape hrefused =>
    rw [notices_append, h.notices_of_ok]
    exact hmisshapen _ hshape
  | @refused _ text _ h =>
    rw [h.notices_of_ok]
    exact hmisshapen _ (Operation.answer?_error op text)
  | answered h ha =>
    rw [h.notices_of_ok]
    rfl

/-- What carrying out an action comes to: the calls that are made, and the client afterwards. -/
structure Acted (a : Action) (c : Client (Nat × τ)) (calls : List Observation)
    (c' : Client (Nat × τ)) : Prop where
  config_eq : c'.config = c.config
  tokens_eq : c'.tokens = (a.notices calls).foldl Notice.apply c.tokens
  /-- A command is sent for an operation only. -/
  sends : executes calls = [] ∨
    ∃ op command, a = .perform op ∧ op.command c.config c.tokens.get? = .ok (some command) ∧
      executes calls = [command]

/-- What concerns the session alone does not matter to tokens. -/
theorem Acted.of_connection {a : Action} {c : Client (Nat × τ)} {calls : List Observation}
    (connection : Connection (Nat × τ)) (ha : a.notices calls = Log.notices calls)
    (h : executes calls = []) : Acted a c calls { c with connection } where
  config_eq := rfl
  tokens_eq := by
    rw [ha, notices_eq_nil h]
    rfl
  sends := .inl h

theorem acted_perform (net : Network σ τ) (op : Operation) (c : Client (Nat × τ))
    (w : Observed σ) :
    ∃ calls, w.Extends calls (c.perform net.recorded op w).2.2 ∧
      Acted (.perform op) c calls (c.perform net.recorded op w).2.1 := by
  cases hcommand : op.command c.config c.tokens.get? with
  | error e =>
    rw [perform, hcommand]
    exact ⟨[], .refl w, rfl, rfl, .inl rfl⟩
  | ok command? =>
    cases command? with
    | none =>
      rw [perform, hcommand]
      exact ⟨[], .refl w, rfl, rfl, .inl rfl⟩
    | some command =>
      obtain ⟨calls, hsent, hext⟩ := send_spec net op command c w
      rw [perform_of_command hcommand]
      refine ⟨calls, hext, ?_, ?_, ?_⟩
      · generalize c.send net.recorded op command w = out at hsent
        obtain ⟨result, c', v⟩ := out
        cases hsent <;> rfl
      · exact hsent.tokens_eq (Operation.denotes_of_command hcommand)
      · rcases hsent.calls_spec.2 with ⟨h, -⟩ | ⟨h, -⟩
        · exact .inl h
        · exact .inr ⟨op, command, rfl, hcommand, h⟩

theorem acted_connect (net : Network σ τ) (reconnect : Bool) (c : Client (Nat × τ))
    (w : Observed σ) :
    ∃ calls, w.Extends calls (c.connect net.recorded reconnect w).2.2 ∧
      Acted (.connect reconnect) c calls (c.connect net.recorded reconnect w).2.1 := by
  obtain ⟨calls, hext, hcalls⟩ := Connection.connect_executes net reconnect c.connection w
  rw [connect]
  generalize c.connection.connect net.recorded reconnect w = out at hext
  obtain ⟨r, connection, v⟩ := out
  cases r with
  | ok _ | error e => exact ⟨calls, hext, .of_connection connection rfl hcalls⟩

/-- Every action comes to something of this kind. -/
theorem acted (net : Network σ τ) (a : Action) (c : Client (Nat × τ)) (w : Observed σ) :
    ∃ calls, w.Extends calls (c.act net.recorded a w).2.2 ∧
      Acted a c calls (c.act net.recorded a w).2.1 := by
  cases a with
  | perform op => exact acted_perform net op c w
  | connect reconnect => exact acted_connect net reconnect c w
  | close =>
    obtain ⟨-, hext⟩ := Connection.close_spec net c.connection w
    exact ⟨_, hext, .of_connection _ rfl (Connection.executes_closing _)⟩
  | isConnected =>
    obtain ⟨calls, h, hext⟩ := Connection.probe_spec net c.connection w
    exact ⟨calls, hext, .of_connection _ rfl h.executes_eq⟩
  | setRemembering on | resetTokens => exact ⟨[], .refl w, rfl, rfl, .inl rfl⟩

/-! ## Runs -/

/-- A run, action by action, each with the calls that it made. -/
def transcript (net : Network σ τ) :
    List Action → Client (Nat × τ) → Observed σ → List (Action × List Observation)
  | [], _, _ => []
  | a :: actions, c, w =>
    let (_, c', w') := c.act net.recorded a w
    (a, w'.log.drop w.log.length) :: transcript net actions c' w'

/-- What a client notices in the course of a run. -/
def noticed (net : Network σ τ) (actions : List Action) (c : Client (Nat × τ)) (w : Observed σ) :
    List Notice :=
  (transcript net actions c w).flatMap fun entry => entry.1.notices entry.2

theorem noticed_cons {net : Network σ τ} {a : Action} {c : Client (Nat × τ)} {w : Observed σ}
    {calls : List Observation} (hext : w.Extends calls (c.act net.recorded a w).2.2)
    (actions : List Action) :
    noticed net (a :: actions) c w =
      a.notices calls ++
        noticed net actions (c.act net.recorded a w).2.1 (c.act net.recorded a w).2.2 := by
  have hcalls : (c.act net.recorded a w).2.2.log.drop w.log.length = calls := by
    rw [hext.log, List.drop_left]
  rw [noticed, transcript, List.flatMap_cons, hcalls]
  rfl

/-- What a client remembers is the fold of what it has noticed. -/
theorem tokens_run (net : Network σ τ) (actions : List Action) (c : Client (Nat × τ))
    (w : Observed σ) :
    (run net.recorded actions c w).2.1.config = c.config ∧
      (run net.recorded actions c w).2.1.tokens =
        (noticed net actions c w).foldl Notice.apply c.tokens := by
  induction actions generalizing c w with
  | nil => exact ⟨rfl, rfl⟩
  | cons a actions ih =>
    obtain ⟨calls, hext, hacted⟩ := acted net a c w
    obtain ⟨hconfig, htokens⟩ := ih (c.act net.recorded a w).2.1 (c.act net.recorded a w).2.2
    rw [noticed_cons hext, List.foldl_append, ← hacted.tokens_eq, ← hacted.config_eq]
    exact ⟨hconfig, htokens⟩

/-! ## What changes nothing -/

theorem get?_foldl_of_silent {k : Key} {notices : List Notice} (hreset : .reset ∉ notices)
    (h : ∀ n ∈ notices, n.token? k = none) (r : TokenRegistry) :
    (notices.foldl Notice.apply r).get? k = r.get? k := by
  induction notices generalizing r with
  | nil => rfl
  | cons n notices ih =>
    rw [List.mem_cons, not_or] at hreset
    have hhead : (n.apply r).get? k = r.get? k := by
      have hn := h n (List.mem_cons_self ..)
      cases n with
      | responded command response =>
        have htoken : response.tokenFor? command k = none := hn
        rw [Notice.get?_apply_responded, htoken, Option.none_or, ite_self]
      | remembering on => rfl
      | reset => exact absurd rfl hreset.1
    rw [List.foldl_cons, ih hreset.2 fun m hm => h m (List.mem_cons_of_mem _ hm), hhead]

/-- The action is one that may bring tokens. -/
def Action.asksForTokens : Action → Bool
  | .perform (.gets _) | .perform (.getsMulti _) => true
  | _ => false

theorem reset_not_mem_notices {a : Action} (h : a ≠ .resetTokens) (calls : List Observation) :
    .reset ∉ a.notices calls := by
  have hcalls : .reset ∉ Log.notices calls := by
    intro hmem
    obtain ⟨⟨n, call, outcome⟩, -, hnotice⟩ := List.mem_filterMap.1 hmem
    simp only [Observation.notice?] at hnotice
    split at hnotice <;> cases hnotice
  cases a with
  | setRemembering on => simp [Action.notices]
  | resetTokens => exact absurd rfl h
  | _ => exact hcalls

theorem Acted.token?_eq_none {a : Action} {c c' : Client (Nat × τ)} {calls : List Observation}
    (h : Acted a c calls c') (ha : a.asksForTokens = false) (k : Key) :
    ∀ n ∈ a.notices calls, n.token? k = none := by
  have hcalls : ∀ n ∈ Log.notices calls, n.token? k = none := by
    intro n hn
    obtain ⟨⟨m, call, outcome⟩, ho, hnotice⟩ := List.mem_filterMap.1 hn
    cases call with
    | execute command =>
      have hsent : command ∈ executes calls := List.mem_filterMap.2 ⟨_, ho, rfl⟩
      cases outcome with
      | responded response =>
        cases hnotice
        rcases h.sends with hnil | ⟨op, command', rfl, hcommand, hone⟩
        · simp [hnil] at hsent
        · obtain rfl : command = command' := by simpa [hone] using hsent
          cases Operation.denotes_of_command hcommand <;> first | rfl | cases ha
      | _ => cases hnotice
    | _ => cases hnotice
  cases a with
  | setRemembering on => simp [Action.notices, Notice.token?]
  | resetTokens => simp [Action.notices, Notice.token?]
  | _ => exact hcalls

/-! ## Conditional stores -/

theorem token?_eq_some_iff {c : Client τ} {source : Key.Source} {t : Token} :
    c.token? source = some t ↔ ∃ k, source = .ofKey k ∧ c.tokens.get? k = some t := by
  rw [token?]
  constructor
  · intro h
    split at h
    · next k hk => exact ⟨k, (Key.validate_eq_ok_iff.1 hk).1, h⟩
    · cases h
  · rintro ⟨k, rfl, h⟩
    rw [Key.validate_eq_ok_iff.2 ⟨rfl, .inl rfl⟩]
    exact h

/-- What becomes of a command of a conditional store is what would become of it in any other
store. -/
theorem send_cas (net : Network σ τ) (mode : StoreMode) (source : Key.Source) (v : Value)
    (options : StoreSettings) (command : Command) (c : Client τ) (w : σ) :
    c.send net (.cas source v options) command w =
      c.send net (.store mode source v options) command w := by
  rw [send, send]
  cases c.connection.execute net command w with
  | mk r out =>
    cases r with
    | error e => rfl
    | ok response => cases response <;> rfl

theorem perform_cas_of_none {c : Client τ} {source : Key.Source} (h : c.token? source = none)
    (net : Network σ τ) (v : Value) (options : StoreSettings) (w : σ) :
    c.perform net (.cas source v options) w = c.perform net (.store .set source v options) w := by
  have hcommand : (Operation.cas source v options).command c.config c.tokens.get? =
      (Operation.store .set source v options).command c.config c.tokens.get? := by
    cases hk : Operation.keyOf c.config source with
    | error e => simp [Operation.command, hk, bind, Except.bind]
    | ok k =>
      have hnone : c.tokens.get? k = none := by
        cases hget : c.tokens.get? k with
        | none => rfl
        | some t =>
          have hsome := token?_eq_some_iff.2 ⟨k, Operation.eq_ofKey_of_keyOf_eq_ok hk, hget⟩
          cases h.symm.trans hsome
      simp [Operation.command, hk, hnone, bind, Except.bind]
  rw [perform, perform, hcommand]
  split
  · rfl
  · rfl
  · exact send_cas net .set source v options _ c w

theorem command_cas_of_token {c : Client τ} {source : Key.Source} {t : Token}
    (h : c.token? source = some t) {v : Value} {options : StoreSettings}
    (hfault : (Operation.cas source v options).fault? c.config = none) :
    ∃ k s, source = .ofKey k ∧ Operation.encodedOf c.config v options = .ok s ∧
      (Operation.cas source v options).command c.config c.tokens.get? =
        .ok (some (.cas k s.data t options.ttl s.flags.bits)) := by
  obtain ⟨command, hcommand⟩ := Operation.exists_command hfault rfl c.tokens.get?
  obtain ⟨k, hsource, hget⟩ := token?_eq_some_iff.1 h
  have hkey : ∀ {k'}, Operation.keyOf c.config source = .ok k' → k' = k := by
    intro k' hk
    rw [hsource] at hk
    exact Operation.eq_of_keyOf_ofKey_eq_ok hk
  cases Operation.denotes_of_command hcommand with
  | cas hk hs htoken =>
    obtain rfl := hkey hk
    cases hget.symm.trans htoken
    exact ⟨_, _, hsource, hs, hcommand⟩
  | casPlain hk hs htoken =>
    obtain rfl := hkey hk
    cases hget.symm.trans htoken

/-- **A client remembers the latest tokens.** Whatever the network does and whatever the client has
been told:

* The token of a key is the latest that was noticed for it.
* An action that is no read for tokens changes no token, unless it forgets them all, and so does a
  read that is not answered with a token for the key.
* A conditional store that is in order sends the token of its key. What keeps it from that is a call
  for a session which has failed. If there is no token, it is a plain store. -/
theorem remembers_latest (net : Network σ τ) (config : Config) (actions : List Action)
    (w : Observed σ) :
    let out := run net.recorded actions (.ofConfig config) w
    let c := out.2.1
    (∀ source t, c.token? source = some t ↔ ∃ k, source = .ofKey k ∧
      Notice.Latest config.rememberTokens k t (noticed net actions (.ofConfig config) w)) ∧
    (∀ a k, a ≠ .resetTokens →
      (a.asksForTokens = false ∨ ∀ n ∈ noticed net [a] c out.2.2, n.token? k = none) →
      (c.act net.recorded a out.2.2).2.1.tokens.get? k = c.tokens.get? k) ∧
    ∀ source v options,
      (c.token? source = none →
        c.perform net.recorded (.cas source v options) out.2.2 =
          c.perform net.recorded (.store .set source v options) out.2.2) ∧
      ∀ t, c.token? source = some t → (Operation.cas source v options).fault? config = none →
        ∃ k s calls, source = .ofKey k ∧ Operation.encodedOf config v options = .ok s ∧
          (c.perform net.recorded (.cas source v options) out.2.2).2.2.log =
            out.2.2.log ++ calls ∧
          c.connection.Sought calls ∧
          ((executes calls = [] ∧ ¬c.connection.Reached calls ∧ Barred calls) ∨
            (executes calls = [.cas k s.data t options.ttl s.flags.bits] ∧
              c.connection.Reached calls)) := by
  obtain ⟨hconfig, htokens⟩ := tokens_run net actions (.ofConfig config) w
  dsimp only
  generalize run net.recorded actions (.ofConfig config) w = out at hconfig htokens
  obtain ⟨results, c, v⟩ := out
  dsimp only at hconfig htokens ⊢
  change c.config = config at hconfig
  refine ⟨?_, ?_, fun source value options => ⟨?_, ?_⟩⟩
  · intro source t
    rw [token?_eq_some_iff, htokens]
    simp only [Notice.get?_foldl_apply (get?_tokens_ofConfig config)]
    rfl
  · intro a k hreset hsilent
    obtain ⟨calls, hext, hacted⟩ := acted net a c v
    have hnoticed : noticed net [a] c v = a.notices calls := by
      rw [noticed_cons hext]
      exact List.append_nil _
    rw [hacted.tokens_eq]
    refine get?_foldl_of_silent (reset_not_mem_notices hreset calls) ?_ _
    rcases hsilent with ha | hsilent
    · exact hacted.token?_eq_none ha k
    · rwa [hnoticed] at hsilent
  · exact fun h => perform_cas_of_none h net.recorded value options v
  · intro t h hfault
    rw [← hconfig] at hfault
    obtain ⟨k, s, hsource, hs, hcommand⟩ := command_cas_of_token h hfault
    obtain ⟨calls, hsent, hext⟩ := send_spec net (.cas source value options) _ c v
    rw [perform_of_command hcommand, ← hconfig]
    exact ⟨k, s, calls, hsource, hs, hext.log, hsent.calls_spec⟩

end Client

end CacheClient
