import CacheClient.Proofs.Connection

/-!
# When commands fail on the way

Whether a server in memory carries out the next command can be told from the server alone
(`Server.obstacle?`): it does not if it is down or a timeout is ordered. What has become of the
session of a connection does not matter. A session that has ended is noticed before it is used, and
another takes its place.

Main result: `execute_of_obstacle`, beside `execute_of_available`.
-/

namespace CacheClient

namespace Server

/-- What a server that is down says to a new connection. -/
def refusal : IoError := ⟨.connectionRefused, "memory server is down"⟩

/-- How an ordered timeout ends a command. -/
def timeout : IoError := ⟨.timedOut, "injected timeout"⟩

/-- Why the next command will not be carried out, if there is a reason. -/
def obstacle? (s : Server) : Option IoError :=
  if s.down then some refusal else if 0 < s.failNext then some timeout else none

/-- How many timeouts are ordered after a command that was not carried out. A server that is down
does not use them up. -/
def remaining (s : Server) : Nat := if s.down then s.failNext else s.failNext - 1

theorem obstacle?_eq_none_iff {s : Server} :
    s.obstacle? = none ↔ s.down = false ∧ s.failNext = 0 := by
  rw [obstacle?]
  cases s.down with
  | true => simp
  | false => simp

theorem obstacle?_cases {s : Server} {e : IoError} (h : s.obstacle? = some e) :
    s.down = true ∧ e = refusal ∧ s.remaining = s.failNext ∨
      s.down = false ∧ 0 < s.failNext ∧ e = timeout ∧ s.remaining = s.failNext - 1 := by
  rw [obstacle?] at h
  split at h
  · next hdown =>
    cases h
    exact .inl ⟨hdown, rfl, if_pos hdown⟩
  · next hup =>
    split at h
    · next hpos =>
      cases h
      exact .inr ⟨Bool.eq_false_iff.2 hup, hpos, rfl, if_neg hup⟩
    · cases h

theorem Quiet.down {s s' : Server} (h : Quiet s s') : s'.down = s.down := by
  obtain ⟨_, _, _, rfl⟩ := h
  rfl

theorem Quiet.failNext_eq {s s' : Server} (h : Quiet s s') : s'.failNext = s.failNext := by
  obtain ⟨_, _, _, rfl⟩ := h
  rfl

theorem connect_of_down {s : Server} (hdown : s.down = true) (id : SessionId) :
    s.connect id = (.error refusal, s) :=
  if_pos hdown

theorem isConnected_of_down {s : Server} (hdown : s.down = true) (id : SessionId) :
    s.isConnected id = false := by
  rw [isConnected, hdown]
  rfl

end Server

namespace Connection

open Server

/-! ## Servers that are down -/

theorem handshake_of_down (plan : SessionPlan) (id : SessionId) {s : Server}
    (hdown : s.down = true) :
    ∃ s', handshake Server.network plan id s = (.error refusal, s') := by
  have hfirst : Server.network.setTimeout id plan.connectTimeout s =
      (.ok (), s.setTimeout id plan.connectTimeout) := rfl
  have hsecond : Server.network.connect id (s.setTimeout id plan.connectTimeout) =
      (.error refusal, s.setTimeout id plan.connectTimeout) :=
    connect_of_down (s := s.setTimeout id plan.connectTimeout) hdown id
  refine ⟨s.setTimeout id plan.connectTimeout, ?_⟩
  rw [handshake, Attempt.andThen_of_ok hfirst, Attempt.andThen, hsecond]

theorem renew_of_down (c : Connection SessionId) {s : Server} (hdown : s.down = true) :
    ∃ c' s', c.renew Server.network s = (.error refusal, c', s') := by
  have hclose := quiet_close c s
  rw [renew]
  generalize c.close Server.network s = closed at hclose
  obtain ⟨c', t⟩ := closed
  have htdown : (t.openSession c'.plan.address).2.down = true := hclose.down.trans hdown
  obtain ⟨u, hshake⟩ := handshake_of_down c'.plan t.sessions.size htdown
  have hopen : Server.network.openSession c'.plan.address t =
      (.ok t.sessions.size, (t.openSession c'.plan.address).2) := rfl
  refine ⟨c', Server.network.close t.sessions.size u, ?_⟩
  dsimp only
  rw [hopen]
  dsimp only
  rw [hshake]

/-- No session of a server that is down is connected. -/
theorem probe_of_down (c : Connection SessionId) {s : Server} (hdown : s.down = true) :
    ∃ c', c.probe Server.network s = (none, c', s) ∧ c'.connected = false := by
  cases hstate : c.state with
  | disconnected =>
    refine ⟨c, ?_, by simp [connected, hstate]⟩
    simp only [probe, hstate]
  | connected =>
    refine ⟨c.without, ?_, rfl⟩
    cases hsession : c.session with
    | none => simp only [probe, hstate, hsession]
    | some id =>
      have hprobe : Server.network.isConnected id s = (false, s) := by
        rw [← isConnected_of_down hdown id]
        rfl
      simp only [probe, hstate, hsession, hprobe]

theorem ensureConnected_of_down (c : Connection SessionId) {s : Server} (hdown : s.down = true) :
    ∃ c' s', c.ensureConnected Server.network s = (.error refusal, c', s') := by
  obtain ⟨c₁, hprobe, hstate⟩ := probe_of_down c hdown
  obtain ⟨c₂, t, hrenew⟩ := renew_of_down c₁ hdown
  refine ⟨c₂, t, ?_⟩
  simp only [ensureConnected, hprobe, connect, hstate, Bool.false_and, Bool.false_eq_true,
    if_false]
  exact hrenew

/-! ## Commands -/

/-- **A command fails on the way for the reason that the server has**, and changes nothing but the
number of timeouts that are ordered. -/
theorem execute_of_obstacle (command : Command) (c : Connection SessionId) {s : Server}
    {e : IoError} (h : s.obstacle? = some e) :
    ∃ c' s', c.execute Server.network command s = (.error e, c', s') ∧
      Quiet { s with failNext := s.remaining } s' := by
  have hquiet := quiet_ensureConnected c s
  rcases obstacle?_cases h with ⟨hdown, rfl, hremaining⟩ | ⟨hup, hpos, rfl, hremaining⟩
  · obtain ⟨c', t, hensure⟩ := ensureConnected_of_down c hdown
    rw [hensure] at hquiet
    refine ⟨c', t, ?_, ?_⟩
    · rw [execute, hensure]
    · rw [hremaining]
      exact hquiet
  · obtain ⟨id, c', t, hensure, hsession, hconnected⟩ := ensureConnected_of_up c hup
    rw [hensure] at hquiet
    have hquiet : Quiet s t := hquiet
    rw [← hquiet.failNext_eq] at hpos hremaining
    have hexec : Server.network.execute id command t =
        (.error timeout, { t with failNext := t.failNext - 1 }) := by
      show t.execute id command = _
      rw [Server.execute, if_neg (by simp [hconnected]), if_pos hpos]
      rfl
    have hclose := quiet_close c' { t with failNext := t.failNext - 1 }
    refine ⟨(c'.close Server.network { t with failNext := t.failNext - 1 }).1,
      (c'.close Server.network { t with failNext := t.failNext - 1 }).2, ?_, ?_⟩
    · rw [execute, hensure]
      dsimp only
      rw [hsession]
      dsimp only
      rw [hexec]
    · rw [hremaining]
      exact (hquiet.failNext _).trans hclose

end Connection

end CacheClient
