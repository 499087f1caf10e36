import CacheClient.Connection
import CacheClient.Proofs.Connection.Lifecycle

/-!
# Connections keep their sessions in order

Whatever a network does, and whatever a connection is told, the connection counts as connected
exactly while it holds a session; what it holds was set up in full; what it does not hold any more
was closed once, or was dead; and no command goes to a session that is not known to be alive
(`Orderly`). An action that reports an error has met it in one of its calls, and leaves no session
behind.

The calls of each function take the session at hand from stage to stage, so that the invariant of
stages holds after every action.

Main result: `sessions_in_order`.
-/

namespace CacheClient

open Log

namespace Connection

variable {σ τ : Type} {plan : SessionPlan} {a : Stage} {log calls : List Observation}
  {c c' : Connection (Nat × τ)}

/-! ## Connections at a stage -/

/-- Between calls, a connection either holds nothing or holds the session at hand. -/
inductive At (c : Connection (Nat × τ)) : Stage → Prop
  | idle (hstate : c.state = .disconnected) (hs : c.session = none) : At c .idle
  | held {a s} (hstate : c.state = .connected) (hs : c.session = some s) (h : a.Held s.1) : At c a

theorem At.isHeld (hc : c.At a) {s : Nat × τ} (hs : c.session = some s) : a.Held s.1 := by
  cases hc with
  | idle hstate hs' => cases hs.symm.trans hs'
  | held hstate hs' h =>
    cases hs.symm.trans hs'
    exact h

theorem At.eq_idle (hc : c.At a) (hs : c.session = none) : a = .idle := by
  cases hc with
  | idle => rfl
  | held hstate hs' h => cases hs.symm.trans hs'

theorem at_without (c : Connection (Nat × τ)) : c.without.At .idle := .idle rfl rfl

/-- Each call of a setup is a step. -/
theorem inv_tried {n : Nat} {todo : List Call} {r : Except IoError Unit}
    (h : Tried n todo calls r) (hinv : Stage.Inv plan (.setup n todo) log) :
    ∃ b, Stage.Inv plan b (log ++ calls) ∧
      (r = .ok () → b = .setup n []) ∧ (∀ e, r = .error e → b = .broken n) := by
  induction h generalizing log with
  | nil => exact ⟨.setup n [], by rwa [List.append_nil], fun _ => rfl, nofun⟩
  | failed call todo e =>
    exact ⟨.broken n, hinv.step (.failed n call todo e), nofun, fun _ _ => rfl⟩
  | done call h ih =>
    obtain ⟨b, hb, hok, herror⟩ := ih (hinv.step (.done n call _))
    exact ⟨b, by rwa [List.append_cons], hok, herror⟩

theorem inv_close (hc : c.At a) (hinv : Stage.Inv plan a log) :
    Stage.Inv plan .idle (log ++ c.closing) := by
  cases hc with
  | idle hstate hs =>
    rw [closing, hs, List.append_nil]
    exact hinv
  | held hstate hs h =>
    rw [closing, hs]
    exact hinv.step (.closed (.inl h))

theorem inv_renewed {r : Except IoError Unit} (h : Renewed plan (opens log) calls r c')
    (hinv : Stage.Inv plan .idle log) :
    ∃ b, c'.At b ∧ Stage.Inv plan b (log ++ calls) ∧
      ∀ s, r = .ok () → c'.session = some s → Stage.Ready s.1 b := by
  cases h with
  | refused e => exact ⟨.idle, .idle rfl rfl, hinv.step (.refused e), nofun⟩
  | broken h =>
    obtain ⟨b, hb, -, herror⟩ := inv_tried h (hinv.step .opened)
    obtain rfl := herror _ rfl
    refine ⟨.idle, .idle rfl rfl, ?_, nofun⟩
    have hclosed := hb.step (.closed (.inr rfl))
    rwa [List.append_assoc, List.append_assoc] at hclosed
  | completed s h =>
    obtain ⟨b, hb, hok, -⟩ := inv_tried h (hinv.step .opened)
    obtain rfl := hok rfl
    refine ⟨_, .held rfl rfl (.ready .setup), ?_, fun t _ ht => ?_⟩
    · rwa [List.append_assoc] at hb
    · cases ht
      exact .setup

theorem inv_probed {r : Option (Nat × τ)} (h : Probed c calls r c') (hc : c.At a)
    (hinv : Stage.Inv plan a log) :
    ∃ b, c'.At b ∧ Stage.Inv plan b (log ++ calls) ∧ ∀ s, r = some s → Stage.Ready s.1 b := by
  cases h with
  | @alive s hstate hs =>
    have hready : Stage.Ready s.1 (.ready s.1) := .ready
    exact ⟨_, .held hstate hs (.ready hready), hinv.step (.alive (hc.isHeld hs)),
      fun t ht => by cases ht; exact hready⟩
  | dead hstate hs => exact ⟨_, at_without c, hinv.step (.dead (hc.isHeld hs)), nofun⟩
  | disconnected hstate => exact ⟨a, hc, by rwa [List.append_nil], nofun⟩
  | absent hs =>
    obtain rfl := hc.eq_idle hs
    exact ⟨_, at_without c, by rwa [List.append_nil], nofun⟩

theorem inv_readied {r : Except IoError Unit} (h : Readied c (opens log) calls r c')
    (hc : c.At a) (hinv : Stage.Inv c.plan a log) :
    ∃ b, c'.At b ∧ Stage.Inv c.plan b (log ++ calls) ∧
      ∀ s, r = .ok () → c'.session = some s → Stage.Ready s.1 b := by
  cases h with
  | alive h =>
    obtain ⟨b, hb, hinv', hready⟩ := inv_probed h hc hinv
    refine ⟨b, hb, hinv', ?_⟩
    intro s _ hs
    cases h.holds.2.symm.trans hs
    exact hready _ rfl
  | @renewed xs ys c₁ _ _ hprobe h =>
    obtain ⟨b, hb, hinv', -⟩ := inv_probed hprobe hc hinv
    have hclosed := inv_close hb hinv'
    have hopens : opens (log ++ xs ++ c₁.closing) = opens log := by simp [hprobe.opens_eq]
    obtain ⟨b, hb, hinv'', hready⟩ := inv_renewed (hopens ▸ h) hclosed
    refine ⟨b, hb, ?_, hready⟩
    rwa [List.append_assoc, List.append_assoc] at hinv''

theorem inv_executed {command : Command} {r : Except IoError Response}
    (h : Executed c (opens log) command calls r c') (hc : c.At a)
    (hinv : Stage.Inv c.plan a log) :
    ∃ b, c'.At b ∧ Stage.Inv c.plan b (log ++ calls) := by
  cases h with
  | unready h =>
    obtain ⟨b, hb, hinv', -⟩ := inv_readied h hc hinv
    exact ⟨b, hb, hinv'⟩
  | answered h hs response =>
    obtain ⟨b, hb, hinv', hready⟩ := inv_readied h hc hinv
    refine ⟨_, .held h.holds.1 hs .used, ?_⟩
    rw [← List.append_assoc]
    exact hinv'.step (.answered (hready _ rfl hs) command response)
  | failed h hs e =>
    obtain ⟨b, hb, hinv', hready⟩ := inv_readied h hc hinv
    refine ⟨_, at_without _, ?_⟩
    have hfailed := hinv'.step (.commandFailed (hready _ rfl hs) command e)
    have hclosed := hfailed.step (.closed (.inr rfl))
    rwa [List.append_assoc, List.append_assoc] at hclosed

/-! ## Actions -/

/-- The error that an action reports. -/
def Action.error? : (x : Action) → x.Result → Option IoError
  | .connect _, r | .ensureConnected, r | .execute _, r => IoError.of? r
  | .close, _ | .isConnected, _ => none

/-- What a result says of the connection. -/
def Action.tells : (x : Action) → x.Result → ConnectionState
  | .connect _, .ok _ | .ensureConnected, .ok _ | .execute _, .ok _ => .connected
  | .connect _, .error _ | .ensureConnected, .error _ | .execute _, .error _ => .disconnected
  | .close, _ => .disconnected
  | .isConnected, alive => if alive then .connected else .disconnected

/-- What carrying out an action comes to. -/
structure Acted (c : Connection (Nat × τ)) (w : Observed σ) (x : Action)
    (calls : List Observation) (out : x.Result × Connection (Nat × τ) × Observed σ) : Prop where
  extended : w.Extends calls out.2.2
  plan_eq : out.2.1.plan = c.plan
  failures_eq : failures calls = (x.error? out.1).toList
  state_eq : out.2.1.state = x.tells out.1
  inv : ∀ a, w.attempts = opens w.log → c.At a → Stage.Inv c.plan a w.log →
    ∃ b, out.2.1.At b ∧ Stage.Inv c.plan b (w.log ++ calls)

/-- If nothing need be done, nothing is. -/
theorem acted_of_connected {c : Connection (Nat × τ)} (hstate : c.state = .connected)
    (reconnect : Bool) (w : Observed σ) : Acted c w (.connect reconnect) [] (.ok (), c, w) where
  extended := .refl w
  plan_eq := rfl
  failures_eq := rfl
  state_eq := hstate
  inv a _ hc hinv := ⟨a, hc, by rwa [List.append_nil]⟩

theorem acted_renew (net : Network σ τ) (c : Connection (Nat × τ)) (reconnect : Bool)
    (w : Observed σ) :
    ∃ calls, Acted c w (.connect reconnect) calls (c.renew net.recorded w) := by
  obtain ⟨calls, h, hext⟩ := renew_spec net c w
  generalize c.renew net.recorded w = out at h hext
  obtain ⟨r, c', w'⟩ := out
  refine ⟨c.closing ++ calls, hext, h.plan_eq, ?_, ?_, ?_⟩
  · rw [failures_append, failures_closing, List.nil_append]
    exact h.failures_eq
  · cases r with
    | ok _ => exact h.holds.1
    | error e => exact h.drops.1
  · intro a hattempts hc hinv
    have hopens : opens (w.log ++ c.closing) = w.attempts := by simp [hattempts]
    obtain ⟨b, hb, hinv', -⟩ := inv_renewed (hopens ▸ h) (inv_close hc hinv)
    exact ⟨b, hb, by rwa [← List.append_assoc]⟩

theorem acted_close (net : Network σ τ) (c : Connection (Nat × τ)) (w : Observed σ) :
    Acted c w .close c.closing ((), c.close net.recorded w) := by
  obtain ⟨hwithout, hext⟩ := close_spec net c w
  generalize c.close net.recorded w = out at hwithout hext
  obtain ⟨c', w'⟩ := out
  cases hwithout
  refine ⟨hext, rfl, failures_closing c, rfl, ?_⟩
  exact fun a _ hc hinv => ⟨.idle, at_without c, inv_close hc hinv⟩

theorem acted_probe (net : Network σ τ) (c : Connection (Nat × τ)) (w : Observed σ) :
    let out := c.probe net.recorded w
    ∃ calls, Acted c w .isConnected calls (out.1.isSome, out.2) := by
  obtain ⟨calls, h, hext⟩ := probe_spec net c w
  dsimp only
  generalize c.probe net.recorded w = out at h hext
  obtain ⟨r, c', w'⟩ := out
  refine ⟨calls, hext, h.plan_eq, h.failures_eq, ?_, ?_⟩
  · cases r with
    | some s => exact h.holds.1
    | none => exact h.disconnected_of_none
  · intro a _ hc hinv
    obtain ⟨b, hb, hinv', -⟩ := inv_probed h hc hinv
    exact ⟨b, hb, hinv'⟩

theorem acted_ensureConnected (net : Network σ τ) (c : Connection (Nat × τ)) (w : Observed σ) :
    ∃ calls, Acted c w .ensureConnected calls (c.ensureConnected net.recorded w) := by
  obtain ⟨calls, h, hext⟩ := ensureConnected_spec net c w
  generalize c.ensureConnected net.recorded w = out at h hext
  obtain ⟨r, c', w'⟩ := out
  refine ⟨calls, hext, h.plan_eq, h.failures_eq, ?_, ?_⟩
  · cases r with
    | ok _ => exact h.holds.1
    | error e => exact h.drops.1
  · intro a hattempts hc hinv
    obtain ⟨b, hb, hinv', -⟩ := inv_readied (hattempts ▸ h) hc hinv
    exact ⟨b, hb, hinv'⟩

theorem acted_execute (net : Network σ τ) (command : Command) (c : Connection (Nat × τ))
    (w : Observed σ) :
    ∃ calls, Acted c w (.execute command) calls (c.execute net.recorded command w) := by
  obtain ⟨calls, h, hext⟩ := execute_spec net command c w
  generalize c.execute net.recorded command w = out at h hext
  obtain ⟨r, c', w'⟩ := out
  refine ⟨calls, hext, h.plan_eq, h.failures_eq, ?_, ?_⟩
  · cases r with
    | ok response => exact h.holds.1
    | error e => exact h.drops.1
  · exact fun a hattempts hc hinv => inv_executed (hattempts ▸ h) hc hinv

/-- Every action comes to something of this kind. -/
theorem acted (net : Network σ τ) (x : Action) (c : Connection (Nat × τ)) (w : Observed σ) :
    ∃ calls, Acted c w x calls (c.act net.recorded x w) := by
  cases x with
  | connect reconnect =>
    by_cases hnoop : c.connected && !reconnect
    · have heq : c.act net.recorded (.connect reconnect) w = (.ok (), c, w) := if_pos hnoop
      have hstate : c.state = .connected := by
        simp only [connected, Bool.and_eq_true, beq_iff_eq] at hnoop
        exact hnoop.1
      rw [heq]
      exact ⟨[], acted_of_connected hstate reconnect w⟩
    · have heq : c.act net.recorded (.connect reconnect) w = c.renew net.recorded w :=
        if_neg hnoop
      rw [heq]
      exact acted_renew net c reconnect w
  | close => exact ⟨c.closing, acted_close net c w⟩
  | isConnected => exact acted_probe net c w
  | ensureConnected => exact acted_ensureConnected net c w
  | execute command => exact acted_execute net command c w

/-! ## Histories -/

/-- What holds of a connection after every action of its history. -/
structure Sound (plan : SessionPlan) (c : Connection (Nat × τ)) (w : Observed σ) : Prop where
  plan_eq : c.plan = plan
  attempts : w.attempts = opens w.log
  stage : ∃ a, c.At a ∧ Stage.Inv plan a w.log

theorem sound_act {w : Observed σ} (h : c.Sound plan w) (net : Network σ τ) (x : Action) :
    (c.act net.recorded x w).2.1.Sound plan (c.act net.recorded x w).2.2 := by
  obtain ⟨calls, hacted⟩ := acted net x c w
  obtain ⟨rfl, hattempts, a, hc, hinv⟩ := h
  refine ⟨hacted.plan_eq, ?_, ?_⟩
  · rw [hacted.extended.attempts, hacted.extended.log, hattempts, opens_append]
  · rw [hacted.extended.log]
    exact hacted.inv a hattempts hc hinv

theorem sound_run {w : Observed σ} (h : c.Sound plan w) (net : Network σ τ)
    (actions : List Action) :
    (run net.recorded actions c w).1.Sound plan (run net.recorded actions c w).2 := by
  induction actions generalizing c w with
  | nil => exact h
  | cons x actions ih => exact ih (sound_act h net x)

theorem sound_ofConfig (config : Config) (w : σ) :
    (ofConfig config : Connection (Nat × τ)).Sound (.ofConfig config) ({ world := w } : Observed σ)
    where
  plan_eq := rfl
  attempts := rfl
  stage := ⟨.idle, .idle rfl rfl, Stage.inv_nil _⟩

/-- What the log of a connection says about its sessions. -/
structure Orderly (plan : SessionPlan) (c : Connection (Nat × τ)) (log : List Observation) :
    Prop where
  /-- The connection counts as connected exactly while it holds a session. -/
  connected_iff : c.state = .connected ↔ c.session.isSome
  /-- The held session was set up in full, and since then every call on it has found it alive or
  was a command that it answered. -/
  held : ∀ s, c.session = some s → Established plan s.1 log
  /-- A command came only to a session that was set up in full, right after the last call of its
  setup or after it was found alive. -/
  executed : ∀ before n command outcome,
    before ++ [⟨n, .execute command, outcome⟩] <+: log → Due plan n before
  /-- A session was opened only under a new number, and when every session opened before had been
  released. -/
  opened : ∀ before n address outcome,
    before ++ [⟨n, .openSession address, outcome⟩] <+: log →
      address = plan.address ∧ Log.on n before = [] ∧ ∀ m, Opened m before → Released m before
  /-- A session that was opened is held, or it was released: its last call closed it or reported
  it dead, and no other call did. -/
  released : ∀ n, Opened n log → (∃ s, c.session = some (n, s)) ∨ Released n log

theorem Sound.orderly {w : Observed σ} (h : c.Sound plan w) : Orderly plan c w.log := by
  obtain ⟨-, -, a, hc, hinv⟩ := h
  constructor
  case connected_iff => cases hc <;> simp [*]
  case held => exact fun s hs => (hc.isHeld hs).established hinv.fits
  case executed => exact fun before n command outcome h => hinv.lawful before _ h
  case opened => exact fun before n address outcome h => hinv.lawful before _ h
  case released =>
    intro n hopened
    refine (hinv.released n hopened).imp_left fun hsession => ?_
    cases hs : c.session with
    | none =>
      obtain rfl := hc.eq_idle hs
      cases hsession
    | some s =>
      rw [(hc.isHeld hs).session?_eq] at hsession
      cases hsession
      exact ⟨s.2, rfl⟩

/-- **Sessions are kept in order.** Over any network and after any history, the sessions of a
connection are in order. Whatever the connection is told next, the result says how the connection
then stands, and the failures among the calls that it makes are the one that it reports, if any. -/
theorem sessions_in_order (net : Network σ τ) (config : Config) (w : σ) (actions : List Action) :
    let out := run net.recorded actions (ofConfig config) { world := w }
    Orderly (.ofConfig config) out.1 out.2.log ∧
      ∀ x : Action, let next := out.1.act net.recorded x out.2
        next.2.1.state = x.tells next.1 ∧
          ∃ calls, next.2.2.log = out.2.log ++ calls ∧
            failures calls = (x.error? next.1).toList := by
  intro out
  have hsound := sound_run (sound_ofConfig (τ := τ) config w) net actions
  refine ⟨hsound.orderly, ?_⟩
  intro x next
  obtain ⟨calls, hacted⟩ := acted net x out.1 out.2
  exact ⟨hacted.state_eq, calls, hacted.extended.log, hacted.failures_eq⟩

end Connection

end CacheClient
