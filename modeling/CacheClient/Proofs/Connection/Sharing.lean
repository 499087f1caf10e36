import CacheClient.Proofs.Connection

/-!
# Connections that share a server

Each connection has its own session, and leaves the sessions of others alone. While nothing ends
them from outside, a connection counts as connected exactly if it holds a session and that session
is connected (`Seated`). Whatever is done with the connection keeps this so, and another connection
notices nothing: sessions that were open before, apart from its own, are connected or not as they
were, and a session that it opens is a new one (`Handled`).

Main result: `execute_of_seated`. That others do not notice is `Handled.seated_other`.
-/

namespace CacheClient

namespace Server

/-! ## Sessions of others -/

/-- From one state to the next, at most the session `id` is connected or closed. -/
structure Minds (id : SessionId) (s s' : Server) : Prop where
  size_eq : s'.sessions.size = s.sessions.size
  others : ∀ a, a ≠ id → s'.isConnected a = s.isConnected a

theorem Minds.refl (id : SessionId) (s : Server) : Minds id s s := ⟨rfl, fun _ _ => rfl⟩

theorem Minds.trans {id : SessionId} {s s' s'' : Server} (h : Minds id s s')
    (h' : Minds id s' s'') : Minds id s s'' where
  size_eq := h'.size_eq.trans h.size_eq
  others a ha := (h'.others a ha).trans (h.others a ha)

/-- Only a session that was opened is connected. -/
theorem lt_size_of_isConnected {s : Server} {id : SessionId} (h : s.isConnected id = true) :
    id < s.sessions.size := by
  simp only [isConnected, Bool.and_eq_true, beq_iff_eq] at h
  exact lt_size_of_isSome (Option.isSome_of_eq_some h.2)

theorem isConnected_modify_of_ne {id a : SessionId} (h : a ≠ id) (f : Session → Session)
    (s : Server) : (s.modify id f).isConnected a = s.isConnected a := by
  have hsession : (s.modify id f).session a = s.session a := by
    rw [session_modify, if_neg fun hid => h hid.1.symm]
  rw [isConnected, hsession, isConnected]
  rfl

theorem minds_modify (id : SessionId) (f : Session → Session) (s : Server) :
    Minds id s (s.modify id f) where
  size_eq := Array.size_modify
  others _ ha := isConnected_modify_of_ne ha f s

theorem minds_setTimeout (id : SessionId) (wait : Option Nat) (s : Server) :
    Minds id s (s.setTimeout id wait) := by
  obtain ⟨hsize, hothers⟩ := minds_modify id (fun x => { x with timeout := wait }) s
  exact ⟨hsize, hothers⟩

theorem minds_setNodelay (id : SessionId) (on : Bool) (s : Server) :
    Minds id s (s.setNodelay id on) := by
  obtain ⟨hsize, hothers⟩ := minds_modify id (fun x => { x with nodelay := on }) s
  exact ⟨hsize, hothers⟩

theorem minds_connect (id : SessionId) (s : Server) : Minds id s (s.connect id).2 := by
  rw [connect]
  split
  · exact .refl id s
  · obtain ⟨hsize, hothers⟩ := minds_modify id (fun x => { x with epoch := some s.epoch }) s
    exact ⟨hsize, hothers⟩

theorem minds_close (id : SessionId) (s : Server) : Minds id s (s.close id) := by
  rw [close]
  split
  · obtain ⟨hsize, hothers⟩ := minds_modify id (fun x => { x with epoch := none }) s
    exact ⟨hsize, hothers⟩
  · exact .refl id s

/-- A session that is opened is not one of those that were there. -/
theorem isConnected_openSession (address : String) (s : Server) (a : SessionId) :
    (s.openSession address).2.isConnected a = s.isConnected a := by
  rw [isConnected, session_openSession, isConnected]
  rfl

end Server

namespace Connection

open Server

theorem minds_handshake (plan : SessionPlan) (id : SessionId) (s : Server) :
    Minds id s (handshake Server.network plan id s).2 := by
  refine Attempt.andThen_rel (Minds id) Minds.trans (minds_setTimeout id _) ?_ s
  refine Attempt.andThen_rel (Minds id) Minds.trans (minds_connect id) ?_
  refine Attempt.andThen_rel (Minds id) Minds.trans (minds_setTimeout id _) ?_
  split
  · exact minds_setNodelay id true
  · exact Minds.refl id

/-! ## Handling of a session -/

/-- A connection counts as connected exactly if it holds a session, which is connected then. -/
inductive Seated (c : Connection SessionId) (s : Server) : Prop
  | away (hstate : c.state = .disconnected) (hs : c.session = none)
  | held {id : SessionId} (hstate : c.state = .connected) (hs : c.session = some id)
      (hid : s.isConnected id = true)

/-- What may be done with the session of a connection, so that others do not notice. -/
structure Handled (c : Connection SessionId) (s : Server) (c' : Connection SessionId)
    (s' : Server) : Prop where
  seated : c'.Seated s'
  spares : ∀ a, a < s.sessions.size → c.session ≠ some a → s'.isConnected a = s.isConnected a
  session : c'.session = c.session ∨ c'.session = none ∨
    ∃ id, c'.session = some id ∧ s.sessions.size ≤ id

variable {c : Connection SessionId} {s : Server}

theorem Handled.refl (h : c.Seated s) : Handled c s c s := ⟨h, fun _ _ _ => rfl, .inl rfl⟩

theorem Seated.congr {s' : Server} (h : c.Seated s)
    (hsame : ∀ id, s'.isConnected id = s.isConnected id) : c.Seated s' := by
  cases h with
  | away hstate hs => exact .away hstate hs
  | held hstate hs hid => exact .held hstate hs ((hsame _).trans hid)

/-- Two connections do not hold the same session. -/
def Strangers (c d : Connection SessionId) : Prop :=
  ∀ id, c.session = some id → d.session ≠ some id

theorem Strangers.symm {d : Connection SessionId} (h : Strangers c d) : Strangers d c :=
  fun id hd hc => h id hc hd

/-- A connection does not notice what is done with another. -/
theorem Handled.seated_other {c' d : Connection SessionId} {s' : Server} (h : Handled c s c' s')
    (hd : d.Seated s) (hstrangers : Strangers c d) : d.Seated s' := by
  cases hd with
  | away hstate hs => exact .away hstate hs
  | @held id hstate hs hid =>
    have hne : c.session ≠ some id := fun hc => hstrangers id hc hs
    exact .held hstate hs ((h.spares id (lt_size_of_isConnected hid) hne).trans hid)

theorem Handled.strangers {c' d : Connection SessionId} {s' : Server} (h : Handled c s c' s')
    (hd : d.Seated s) (hstrangers : Strangers c d) : Strangers c' d := by
  intro id hc' hs
  rcases h.session with hsame | hnone | ⟨new, hnew, hle⟩
  · exact hstrangers id (hsame.symm.trans hc') hs
  · cases hnone.symm.trans hc'
  · cases hnew.symm.trans hc'
    -- the session of the other connection was opened before
    cases hd with
    | away hstate hnone => cases hnone.symm.trans hs
    | held hstate hold hid =>
      cases hold.symm.trans hs
      exact absurd (lt_size_of_isConnected hid) (Nat.not_lt.2 hle)

/-- Closing leaves a connection without a session, and opens none. -/
theorem close_eq (c : Connection SessionId) (s : Server) :
    (c.close Server.network s).1 = c.without ∧
      (c.close Server.network s).2.sessions.size = s.sessions.size := by
  rw [close]
  cases c.session with
  | none => exact ⟨rfl, rfl⟩
  | some id => exact ⟨rfl, (minds_close id s).size_eq⟩

theorem handled_close (c : Connection SessionId) (s : Server) :
    Handled c s (c.close Server.network s).1 (c.close Server.network s).2 := by
  rw [close]
  cases hs : c.session with
  | none => exact ⟨.away rfl rfl, fun _ _ _ => rfl, .inr (.inl rfl)⟩
  | some id =>
    refine ⟨.away rfl rfl, fun a _ hne => ?_, .inr (.inl rfl)⟩
    exact (minds_close id s).others a fun heq => hne (by rw [hs, heq])

/-- A new session takes the place of the old one. -/
theorem renew_others (c : Connection SessionId) (s : Server) :
    (∀ a, a < s.sessions.size → c.session ≠ some a →
        (c.renew Server.network s).2.2.isConnected a = s.isConnected a) ∧
      ∀ id, (c.renew Server.network s).2.1.session = some id → s.sessions.size ≤ id := by
  obtain ⟨hwithout, hsize⟩ := close_eq c s
  have hspares := (handled_close c s).spares
  rw [renew]
  generalize c.close Server.network s = closed at hwithout hsize hspares
  obtain ⟨_, t⟩ := closed
  cases hwithout
  dsimp only at hsize hspares
  have hopen : Server.network.openSession c.plan.address t =
      (.ok t.sessions.size, (t.openSession c.plan.address).2) := rfl
  have hshake := minds_handshake c.plan t.sessions.size (t.openSession c.plan.address).2
  have hothers : ∀ {u}, Minds t.sessions.size (t.openSession c.plan.address).2 u →
      ∀ a, a < s.sessions.size → c.session ≠ some a → u.isConnected a = s.isConnected a := by
    intro u hu a ha hne
    have hat : a < t.sessions.size := by rwa [hsize]
    rw [hu.others a (Nat.ne_of_lt hat), isConnected_openSession, hspares a ha hne]
  dsimp only [without]
  rw [hopen]
  dsimp only
  split
  · next v heq =>
    rw [heq] at hshake
    refine ⟨hothers hshake, ?_⟩
    rintro id ⟨⟩
    exact Nat.le_of_eq hsize.symm
  · next e v heq =>
    rw [heq] at hshake
    refine ⟨hothers (hshake.trans (minds_close _ v)), ?_⟩
    rintro id ⟨⟩

/-- What becomes of a connection that is brought up on a server that is up. -/
structure Raised (c : Connection SessionId) (s : Server) (c' : Connection SessionId)
    (s' : Server) : Prop extends Handled c s c' s' where
  connected : c'.state = .connected

theorem raised_renew (c : Connection SessionId) (hup : s.down = false) :
    ∃ c' s', c.renew Server.network s = (.ok (), c', s') ∧ Raised c s c' s' := by
  obtain ⟨id, s', hrenew, hid⟩ := renew_of_up c hup
  obtain ⟨hspares, hnew⟩ := renew_others c s
  rw [hrenew] at hspares hnew
  exact ⟨_, s', hrenew, ⟨.held rfl rfl hid, hspares, .inr (.inr ⟨id, rfl, hnew id rfl⟩)⟩, rfl⟩

theorem raised_connect (h : c.Seated s) (hup : s.down = false) (reconnect : Bool) :
    ∃ c' s', c.connect Server.network reconnect s = (.ok (), c', s') ∧ Raised c s c' s' := by
  rw [connect]
  split
  · next hkept =>
    refine ⟨c, s, rfl, .refl h, ?_⟩
    rw [Bool.and_eq_true, Connection.connected, beq_iff_eq] at hkept
    exact hkept.1
  · exact raised_renew c hup

/-- A session that is held is found to be connected. -/
theorem probe_of_seated (h : c.Seated s) : c.probe Server.network s = (c.session, c, s) := by
  cases h with
  | away hstate hs => simp only [probe, hstate, hs]
  | held hstate hs hid =>
    have hprobe : Server.network.isConnected _ s = (true, s) := congrArg (·, s) hid
    simp only [probe, hstate, hs, hprobe]

theorem raised_ensureConnected (h : c.Seated s) (hup : s.down = false) :
    ∃ c' s', c.ensureConnected Server.network s = (.ok (), c', s') ∧ Raised c s c' s' := by
  rw [ensureConnected, probe_of_seated h]
  cases hs : c.session with
  | none => exact raised_connect h hup false
  | some id =>
    refine ⟨c, s, rfl, .refl h, ?_⟩
    cases h with
    | away hstate hnone => cases hnone.symm.trans hs
    | held hstate => exact hstate

/-- **A command is carried out, and nobody else notices.** -/
theorem execute_of_seated (command : Command) (h : c.Seated s) (hup : s.down = false)
    (hfail : s.failNext = 0) :
    ∃ r c' s', c.execute Server.network command s = (.ok r, c', s') ∧
      Carried s ⟨command, r⟩ s' ∧ Raised c s c' s' := by
  obtain ⟨r, c', s', hexec, hcarried⟩ := execute_of_available command c hup hfail
  obtain ⟨x, t, hensure, hraised⟩ := raised_ensureConnected h hup
  refine ⟨r, c', s', hexec, hcarried, ?_⟩
  rw [execute, hensure] at hexec
  dsimp only at hexec
  split at hexec
  · cases hexec
  · next id hs =>
    -- what is carried out does not concern the sessions
    rcases Server.execute_cases id command t with heq | ⟨e, n, heq⟩
    · have heq : Server.network.execute id command t = _ := heq
      rw [heq] at hexec
      cases hexec
      obtain ⟨⟨hseated, hspares, hsession⟩, hstate⟩ := hraised
      exact ⟨⟨hseated.congr fun _ => rfl, hspares, hsession⟩, hstate⟩
    · have heq : Server.network.execute id command t = _ := heq
      rw [heq] at hexec
      cases hexec

end Connection

end CacheClient
