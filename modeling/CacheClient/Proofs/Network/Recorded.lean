import CacheClient.Client
import CacheClient.Network.Recorded
import CacheClient.Proofs.Client.Calls

/-!
# Observation changes nothing

A network under observation does what it does without. Whatever a connection or a client is told, it
comes to the same result, the same state and the same world as over the network itself, once the
log and the numbers of sessions are forgotten (`Connection.run_unnumbered`,
`Client.run_unnumbered`). What a log says of calls is therefore said of the calls of any client.
-/

namespace CacheClient

variable {σ τ α : Type}

/-! ## Attempts -/

/-- The attempt does the same under observation. -/
def Attempt.Seen (plain : Attempt σ α) (seen : Attempt (Observed σ) α) : Prop :=
  ∀ w, plain w.world = ((seen w).1, (seen w).2.world)

theorem Observed.seen_attempt (n : Nat) (call : Call) (outcome : α → Outcome) (act : Attempt σ α) :
    act.Seen (attempt n call outcome act) := by
  intro w
  rw [attempt]
  split <;> next heq => exact heq

theorem Attempt.Seen.andThen {first : Attempt σ Unit} {first' : Attempt (Observed σ) Unit}
    {second : Attempt σ α} {second' : Attempt (Observed σ) α} (h : first.Seen first')
    (h' : second.Seen second') : (first.andThen second).Seen (first'.andThen second') := by
  intro w
  rw [Attempt.andThen, Attempt.andThen, h w]
  cases first' w with
  | mk r v =>
    cases r with
    | ok _ => exact h' v
    | error e => rfl

namespace Connection

theorem seen_handshake (net : Network σ τ) (plan : SessionPlan) (s : Nat × τ) :
    (handshake net plan s.2).Seen (handshake net.recorded plan s) := by
  refine .andThen ?_ (.andThen ?_ (.andThen ?_ ?_))
  · exact Observed.seen_attempt s.1 _ _ _
  · exact Observed.seen_attempt s.1 _ _ _
  · exact Observed.seen_attempt s.1 _ _ _
  · split
    · exact Observed.seen_attempt s.1 _ _ _
    · exact fun w => rfl

/-! ## Connections -/

/-- The same connection, whose session has no number. -/
def unnumbered (c : Connection (Nat × τ)) : Connection τ where
  plan := c.plan
  state := c.state
  session := c.session.map (·.2)

/-- The outcome without what observation adds to it. -/
def unseen (out : α × Connection (Nat × τ) × Observed σ) : α × Connection τ × σ :=
  (out.1, out.2.1.unnumbered, out.2.2.world)

theorem close_unnumbered (net : Network σ τ) (c : Connection (Nat × τ)) (w : Observed σ) :
    c.unnumbered.close net w.world =
      ((c.close net.recorded w).1.unnumbered, (c.close net.recorded w).2.world) := by
  obtain ⟨plan, state, session⟩ := c
  cases session <;> rfl

theorem open_unnumbered (net : Network σ τ) (address : String) (w : Observed σ) :
    net.openSession address w.world = ((net.recorded.openSession address w).1.map (·.2),
      (net.recorded.openSession address w).2.world) := by
  cases h : net.openSession address w.world with
  | mk r v =>
    simp only [Network.recorded, h]
    cases r <;> rfl

theorem renew_unnumbered (net : Network σ τ) (c : Connection (Nat × τ)) (w : Observed σ) :
    c.unnumbered.renew net w.world = unseen (c.renew net.recorded w) := by
  rw [renew, renew, close_unnumbered]
  generalize c.close net.recorded w = closed
  obtain ⟨c, v⟩ := closed
  have hopen := open_unnumbered net c.plan.address v
  dsimp only [unnumbered] at hopen ⊢
  rw [hopen]
  generalize net.recorded.openSession c.plan.address v = opened
  obtain ⟨r, u⟩ := opened
  cases r with
  | error e => rfl
  | ok s =>
    have hshake := seen_handshake net c.plan s u
    dsimp only [Except.map] at hshake ⊢
    rw [hshake]
    generalize handshake net.recorded c.plan s u = shaken
    obtain ⟨r, t⟩ := shaken
    cases r <;> rfl

theorem connect_unnumbered (net : Network σ τ) (reconnect : Bool) (c : Connection (Nat × τ))
    (w : Observed σ) :
    c.unnumbered.connect net reconnect w.world = unseen (c.connect net.recorded reconnect w) := by
  have hconnected : c.unnumbered.connected = c.connected := rfl
  rw [connect, connect, hconnected]
  split
  · rfl
  · exact renew_unnumbered net c w

theorem probe_unnumbered (net : Network σ τ) (c : Connection (Nat × τ)) (w : Observed σ) :
    c.unnumbered.probe net w.world = ((c.probe net.recorded w).1.map (·.2),
      (c.probe net.recorded w).2.1.unnumbered, (c.probe net.recorded w).2.2.world) := by
  obtain ⟨plan, state, session⟩ := c
  cases state with
  | disconnected => rfl
  | connected =>
    cases session with
    | none => rfl
    | some s =>
      cases h : net.isConnected s.2 w.world with
      | mk alive v =>
        simp only [probe, unnumbered, Option.map_some, Network.recorded, h]
        cases alive <;> rfl

theorem ensureConnected_unnumbered (net : Network σ τ) (c : Connection (Nat × τ))
    (w : Observed σ) :
    c.unnumbered.ensureConnected net w.world = unseen (c.ensureConnected net.recorded w) := by
  rw [ensureConnected, ensureConnected, probe_unnumbered]
  generalize c.probe net.recorded w = probed
  obtain ⟨r, c, v⟩ := probed
  cases r with
  | some s => rfl
  | none => exact connect_unnumbered net false c v

theorem execute_unnumbered (net : Network σ τ) (command : Command) (c : Connection (Nat × τ))
    (w : Observed σ) :
    c.unnumbered.execute net command w.world = unseen (c.execute net.recorded command w) := by
  rw [execute, execute, ensureConnected_unnumbered]
  generalize c.ensureConnected net.recorded w = readied
  obtain ⟨r, c, v⟩ := readied
  cases r with
  | error e => rfl
  | ok _ =>
    obtain ⟨plan, state, session⟩ := c
    cases session with
    | none => rfl
    | some s =>
      have hexec : net.execute s.2 command v.world = ((net.recorded.execute s command v).1,
          (net.recorded.execute s command v).2.world) := Observed.seen_attempt s.1 _ _ _ v
      dsimp only [unseen, unnumbered, Option.map_some]
      rw [hexec]
      generalize net.recorded.execute s command v = executed
      obtain ⟨r, u⟩ := executed
      cases r <;> rfl

theorem act_unnumbered (net : Network σ τ) (x : Action) (c : Connection (Nat × τ))
    (w : Observed σ) :
    c.unnumbered.act net x w.world = unseen (c.act net.recorded x w) := by
  cases x with
  | connect reconnect => exact connect_unnumbered net reconnect c w
  | close => exact congrArg (Prod.mk ()) (close_unnumbered net c w)
  | isConnected =>
    rw [act, act, probe_unnumbered]
    generalize c.probe net.recorded w = probed
    obtain ⟨r, c, v⟩ := probed
    cases r <;> rfl
  | ensureConnected => exact ensureConnected_unnumbered net c w
  | execute command => exact execute_unnumbered net command c w

/-- **Observation does not change what a connection does.** -/
theorem run_unnumbered (net : Network σ τ) (actions : List Action) (c : Connection (Nat × τ))
    (w : Observed σ) :
    run net actions c.unnumbered w.world =
      ((run net.recorded actions c w).1.unnumbered, (run net.recorded actions c w).2.world) := by
  induction actions generalizing c w with
  | nil => rfl
  | cons x actions ih =>
    rw [run, run, act_unnumbered]
    generalize c.act net.recorded x w = acted
    obtain ⟨result, c', v⟩ := acted
    exact ih c' v

end Connection

/-! ## Clients -/

namespace Client

/-- The same client, whose session has no number. -/
def unnumbered (c : Client (Nat × τ)) : Client τ where
  config := c.config
  tokens := c.tokens
  connection := c.connection.unnumbered

/-- The outcome without what observation adds to it. -/
def unseen (out : α × Client (Nat × τ) × Observed σ) : α × Client τ × σ :=
  (out.1, out.2.1.unnumbered, out.2.2.world)

theorem fail_unnumbered (net : Network σ τ) (op : Operation) (e : Error) (c : Client (Nat × τ))
    (w : Observed σ) :
    c.unnumbered.fail net op e w.world = unseen (c.fail net.recorded op e w) := by
  rw [fail, fail, close, close]
  have hclose := Connection.close_unnumbered net c.connection w
  dsimp only [unnumbered]
  rw [hclose]
  rfl

theorem send_unnumbered (net : Network σ τ) (op : Operation) (command : Command)
    (c : Client (Nat × τ)) (w : Observed σ) :
    c.unnumbered.send net op command w.world = unseen (c.send net.recorded op command w) := by
  have hexec := Connection.execute_unnumbered net command c.connection w
  rcases hrecorded : c.connection.execute net.recorded command w with ⟨r, connection, v⟩
  rw [hrecorded] at hexec
  have hplain : c.unnumbered.connection.execute net command w.world =
      (r, connection.unnumbered, v.world) := hexec
  rw [send_of_verdict hplain, send_of_verdict hrecorded]
  cases op.verdict command r with
  | inl e => exact fail_unnumbered net op e { c with connection } v
  | inr told => rfl

theorem perform_unnumbered (net : Network σ τ) (op : Operation) (c : Client (Nat × τ))
    (w : Observed σ) :
    c.unnumbered.perform net op w.world = unseen (c.perform net.recorded op w) := by
  have hcommand : op.command c.unnumbered.config c.unnumbered.tokens.get? =
      op.command c.config c.tokens.get? := rfl
  rw [perform, perform, hcommand]
  split
  · rfl
  · rfl
  · exact send_unnumbered net op _ c w

theorem connect_unnumbered (net : Network σ τ) (reconnect : Bool) (c : Client (Nat × τ))
    (w : Observed σ) :
    c.unnumbered.connect net reconnect w.world = unseen (c.connect net.recorded reconnect w) := by
  have hconnect := Connection.connect_unnumbered net reconnect c.connection w
  rw [connect, connect]
  dsimp only [unnumbered]
  rw [hconnect]
  generalize c.connection.connect net.recorded reconnect w = connected
  obtain ⟨r, connection, v⟩ := connected
  cases r <;> rfl

theorem act_unnumbered (net : Network σ τ) (a : Action) (c : Client (Nat × τ))
    (w : Observed σ) : c.unnumbered.act net a w.world = unseen (c.act net.recorded a w) := by
  cases a with
  | perform op => exact perform_unnumbered net op c w
  | connect reconnect => exact connect_unnumbered net reconnect c w
  | close =>
    have hclose := Connection.close_unnumbered net c.connection w
    rw [act, act, close, close]
    dsimp only [unnumbered]
    rw [hclose]
    rfl
  | isConnected =>
    have hprobe := Connection.probe_unnumbered net c.connection w
    rw [act, act, isConnected, isConnected]
    dsimp only [unnumbered]
    rw [hprobe]
    generalize c.connection.probe net.recorded w = probed
    obtain ⟨r, connection, v⟩ := probed
    cases r <;> rfl
  | setRemembering on | resetTokens => rfl

/-- **Observation does not change what a client does.** -/
theorem run_unnumbered (net : Network σ τ) (actions : List Action) (c : Client (Nat × τ))
    (w : Observed σ) :
    run net actions c.unnumbered w.world = unseen (run net.recorded actions c w) := by
  induction actions generalizing c w with
  | nil => rfl
  | cons a actions ih =>
    rw [run, run, act_unnumbered]
    generalize c.act net.recorded a w = acted
    obtain ⟨result, c', v⟩ := acted
    have hrest := ih c' v
    dsimp only [unseen] at hrest ⊢
    rw [hrest]

end Client

end CacheClient
