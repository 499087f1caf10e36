import CacheClient.Connection
import CacheClient.Proofs.Cache.Writes

/-!
# What a connection does to a server

Setting up, probing and closing sessions is **quiet** (`Server.Quiet`): the items, the tokens,
the clock and the faults of the server stay as they are. Carrying out a command is quiet as well
if it fails, except that it may have used up an ordered timeout; otherwise the server has carried
the command out, once (`execute_cases`). On a server that is up and has no timeouts ordered, it
does not fail (`execute_of_available`).
-/

namespace CacheClient

namespace Server

/-! ## Quiet changes -/

/-- Two states differ at most in sessions, recorded calls and the count of connections. -/
def Quiet (s s' : Server) : Prop :=
  ∃ connections sessions calls,
    s' = { s with cache := { s.cache with connections }, sessions, calls }

theorem Quiet.refl (s : Server) : Quiet s s := ⟨s.cache.connections, s.sessions, s.calls, rfl⟩

theorem Quiet.trans {s s' s'' : Server} (h : Quiet s s') (h' : Quiet s' s'') : Quiet s s'' := by
  obtain ⟨_, _, _, rfl⟩ := h
  obtain ⟨connections, sessions, calls, rfl⟩ := h'
  exact ⟨connections, sessions, calls, rfl⟩

theorem Quiet.failNext {s s' : Server} (h : Quiet s s') (failNext : Nat) :
    Quiet { s with failNext } { s' with failNext } := by
  obtain ⟨connections, sessions, calls, rfl⟩ := h
  exact ⟨connections, sessions, calls, rfl⟩

theorem quiet_openSession (address : String) (s : Server) : Quiet s (s.openSession address).2 :=
  ⟨_, _, _, rfl⟩

theorem quiet_setTimeout (id : SessionId) (wait : Option Nat) (s : Server) :
    Quiet s (s.setTimeout id wait) :=
  ⟨_, _, _, rfl⟩

theorem quiet_setNodelay (id : SessionId) (on : Bool) (s : Server) :
    Quiet s (s.setNodelay id on) :=
  ⟨_, _, _, rfl⟩

theorem quiet_connect (id : SessionId) (s : Server) : Quiet s (s.connect id).2 := by
  rw [connect]
  split
  · exact .refl s
  · exact ⟨_, _, _, rfl⟩

theorem quiet_close (id : SessionId) (s : Server) : Quiet s (s.close id) := by
  rw [close]
  split
  · exact ⟨_, _, _, rfl⟩
  · exact .refl s

theorem Quiet.moves {s s' : Server} (h : Quiet s s') : Moves s none s' := by
  obtain ⟨connections, sessions, calls, rfl⟩ := h
  exact ⟨Nat.le_refl _, fun _ => ⟨rfl, rfl⟩, fun h => by cases h⟩

theorem Quiet.spares {s s' : Server} (h : Quiet s s') (k : Key) : Spares k s s' :=
  .of_none h.moves

theorem Spares.refl (k : Key) (s : Server) : Spares k s s := (Quiet.refl s).spares k

/-- A command was not carried out. An ordered timeout may have been used up. -/
def Failed (s s' : Server) : Prop := ∃ failNext, Quiet { s with failNext } s'

theorem Failed.moves {s s' : Server} (h : Failed s s') : Moves s none s' := by
  obtain ⟨failNext, hquiet⟩ := h
  exact { hquiet.moves with }

theorem Failed.spares {s s' : Server} (h : Failed s s') (k : Key) : Spares k s s' :=
  .of_none h.moves

theorem Failed.trans_quiet {s s' s'' : Server} (h : Failed s s') (h' : Quiet s' s'') :
    Failed s s'' := by
  obtain ⟨failNext, hquiet⟩ := h
  exact ⟨failNext, hquiet.trans h'⟩

/-- A command was carried out, after some handling of sessions. -/
def Carried (s : Server) (x : Exchange) (s' : Server) : Prop :=
  ∃ t, Quiet s t ∧ x.response = (t.cache.apply t.now x.command).1 ∧
    s' = { t with
      cache := (t.cache.apply t.now x.command).2
      commands := t.commands ++ [x.command] }

theorem Carried.moves {s s' : Server} {x : Exchange} (h : Carried s x s') :
    Moves s (some x) s' := by
  obtain ⟨_, ⟨connections, sessions, calls, rfl⟩, hresponse, rfl⟩ := h
  refine ⟨Nat.le_refl _, ?_, ?_⟩
  · intro h
    cases h
  · intro y hy
    cases hy
    exact ⟨connections, hresponse, rfl⟩

/-- Carrying out a command takes no time and does not touch the faults of the server. -/
theorem Carried.frame {s s' : Server} {x : Exchange} (h : Carried s x s') :
    s'.now = s.now ∧ s'.down = s.down ∧ s'.failNext = s.failNext := by
  obtain ⟨_, ⟨connections, sessions, calls, rfl⟩, -, rfl⟩ := h
  exact ⟨rfl, rfl, rfl⟩

/-- What a read of one item has given. -/
theorem Carried.read {s s' : Server} {command : Command} {withToken : Bool} {k : Key}
    {response : Response} (h : Carried s ⟨command, response⟩ s')
    (hread : command.read? = some (withToken, k)) :
    response = .item ((s.cache.live? s.now k).map (Cache.Entry.shown withToken)) := by
  obtain ⟨_, ⟨connections, sessions, calls, rfl⟩, hresponse, -⟩ := h
  have hfetch : response = .item ({ s.cache with connections }.fetch s.now withToken k).1 := by
    cases command with
    | get a | gets a =>
      cases hread
      exact hresponse
    | _ => cases hread
  rw [hfetch, Cache.fetch_fst]
  rfl

/-- What a conditional store has left if it succeeded. -/
theorem Carried.cas_stored {s s' : Server} {k : Key} {data : Bytes} {token : Token}
    {ttl flags : UInt32}
    (h : Carried s ⟨.cas k data token ttl flags, .store .stored⟩ s') :
    s'.cache.items[k]? =
      some ⟨data, flags, s.cache.lastToken + 1, Cache.deadline s.now ttl⟩ :=
  h.moves.item_of_put rfl

/-- What an unconditional store has answered and left. -/
theorem Carried.set {s s' : Server} {k : Key} {data : Bytes} {ttl flags : UInt32}
    {response : Response} (h : Carried s ⟨.store .set k data ttl flags, response⟩ s') :
    response = .store .stored ∧ s'.cache.items[k]? =
      some ⟨data, flags, s.cache.lastToken + 1, Cache.deadline s.now ttl⟩ := by
  have hresponse : response = .store .stored := by
    obtain ⟨_, _, hresponse, _⟩ := h
    exact hresponse
  subst hresponse
  exact ⟨rfl, h.moves.item_of_put rfl⟩

/-! ## Sessions that are connected -/

/-- Only a session that was opened has an epoch. -/
theorem lt_size_of_isSome {s : Server} {id : SessionId}
    (h : (s.session id).epoch.isSome = true) : id < s.sessions.size := by
  refine Nat.lt_of_not_le fun hid => ?_
  rw [session, Array.getD_eq_getD_getElem?, Array.getElem?_eq_none hid] at h
  cases h

/-- A new session is as one that was never opened. -/
theorem session_openSession (address : String) (s : Server) (id : SessionId) :
    (s.openSession address).2.session id = s.session id := by
  show (s.sessions.push {}).getD id {} = s.sessions.getD id {}
  simp only [Array.getD_eq_getD_getElem?, Array.getElem?_push]
  split
  · next h => simp [h]
  · rfl

theorem session_modify (id a : SessionId) (f : Session → Session) (s : Server) :
    (s.modify id f).session a =
      if id = a ∧ a < s.sessions.size then f (s.session a) else s.session a := by
  simp only [session, modify, Array.getD_eq_getD_getElem?, Array.getElem?_modify]
  by_cases ha : a < s.sessions.size
  · by_cases hid : id = a
    · simp [hid, ha]
    · simp [hid]
  · by_cases hid : id = a
    · simp [hid, ha]
    · simp [hid]

theorem isConnected_modify (id a : SessionId) (f : Session → Session) (s : Server)
    (hf : ∀ x, (f x).epoch = x.epoch) : (s.modify id f).isConnected a = s.isConnected a := by
  have hepoch : ((s.modify id f).session a).epoch = (s.session a).epoch := by
    rw [session_modify]
    split
    · exact hf _
    · rfl
  rw [isConnected, hepoch, isConnected]
  rfl

theorem isConnected_setTimeout (id a : SessionId) (wait : Option Nat) (s : Server) :
    (s.setTimeout id wait).isConnected a = s.isConnected a :=
  isConnected_modify id a _ s fun _ => rfl

theorem isConnected_setNodelay (id a : SessionId) (on : Bool) (s : Server) :
    (s.setNodelay id on).isConnected a = s.isConnected a :=
  isConnected_modify id a _ s fun _ => rfl

/-- On a server that is up, a session can be connected. -/
theorem connect_of_up {s : Server} {id : SessionId} (hup : s.down = false)
    (hid : id < s.sessions.size) :
    (s.connect id).1 = .ok () ∧ (s.connect id).2.isConnected id = true := by
  rw [connect, if_neg (by simp [hup])]
  refine ⟨rfl, ?_⟩
  show (!s.down && ((s.modify id fun x => { x with epoch := some s.epoch }).session id).epoch ==
    some s.epoch) = true
  rw [session_modify, if_pos ⟨rfl, hid⟩, hup]
  simp

end Server

theorem Attempt.andThen_of_ok {σ α : Type} {first : Attempt σ Unit} {second : Attempt σ α}
    {s t : σ} (h : first s = (.ok (), t)) : first.andThen second s = second t := by
  rw [Attempt.andThen, h]

/-- What holds of each of two steps holds of one after the other, also if the first fails. -/
theorem Attempt.andThen_rel {σ : Type} (R : σ → σ → Prop) {first second : Attempt σ Unit}
    (htrans : ∀ {s t u}, R s t → R t u → R s u) (hfirst : ∀ s, R s (first s).2)
    (hsecond : ∀ s, R s (second s).2) (s : σ) : R s (first.andThen second s).2 := by
  have h := hfirst s
  rw [Attempt.andThen]
  split
  · next t heq =>
    rw [heq] at h
    exact htrans h (hsecond t)
  · next heq =>
    rw [heq] at h
    exact h

namespace Connection

open Server

/-! ## Handling of sessions -/

theorem quiet_close (c : Connection SessionId) (s : Server) :
    Quiet s (c.close Server.network s).2 := by
  rw [close]
  split
  · exact Server.quiet_close _ s
  · exact .refl s

theorem quiet_handshake (plan : SessionPlan) (id : SessionId) (s : Server) :
    Quiet s (handshake Server.network plan id s).2 := by
  refine Attempt.andThen_rel Quiet Quiet.trans (quiet_setTimeout id _) ?_ s
  refine Attempt.andThen_rel Quiet Quiet.trans (quiet_connect id) ?_
  refine Attempt.andThen_rel Quiet Quiet.trans (quiet_setTimeout id _) ?_
  split
  · exact quiet_setNodelay id true
  · exact Quiet.refl

theorem quiet_renew (c : Connection SessionId) (s : Server) :
    Quiet s (c.renew Server.network s).2.2 := by
  have hclose := quiet_close c s
  rw [renew]
  generalize c.close Server.network s = closed at hclose
  obtain ⟨c, t⟩ := closed
  dsimp only
  split
  · next heq => cases heq
  · next id u heq =>
    have hu : (t.openSession c.plan.address).2 = u := congrArg Prod.snd heq
    have hopen : Quiet s u := hu ▸ hclose.trans (quiet_openSession c.plan.address t)
    have hshake := quiet_handshake c.plan id u
    split
    · next v heq =>
      rw [heq] at hshake
      exact hopen.trans hshake
    · next e v heq =>
      rw [heq] at hshake
      exact (hopen.trans hshake).trans (Server.quiet_close _ v)

theorem quiet_connect (reconnect : Bool) (c : Connection SessionId) (s : Server) :
    Quiet s (c.connect Server.network reconnect s).2.2 := by
  unfold connect
  split
  · exact .refl s
  · exact quiet_renew c s

theorem probe_snd_snd (c : Connection SessionId) (s : Server) :
    (c.probe Server.network s).2.2 = s := by
  rw [probe]
  split
  · rfl
  · rfl
  · split
    · next heq => exact (congrArg Prod.snd heq).symm
    · next heq => exact (congrArg Prod.snd heq).symm

theorem quiet_ensureConnected (c : Connection SessionId) (s : Server) :
    Quiet s (c.ensureConnected Server.network s).2.2 := by
  have hprobe := probe_snd_snd c s
  rw [ensureConnected]
  split
  · next id c t heq =>
    rw [heq] at hprobe
    rw [show t = s from hprobe]
    exact .refl s
  · next c t heq =>
    rw [heq] at hprobe
    rw [show t = s from hprobe]
    exact quiet_connect false c s

/-! ## Sessions that can be used -/

/-- On a server that is up, a handshake succeeds. -/
theorem handshake_of_up (plan : SessionPlan) {id : SessionId} {s : Server} (hup : s.down = false)
    (hid : id < s.sessions.size) :
    ∃ s', handshake Server.network plan id s = (.ok (), s') ∧ s'.isConnected id = true := by
  have hid' : id < (s.setTimeout id plan.connectTimeout).sessions.size := by
    show id < (s.sessions.modify id _).size
    rw [Array.size_modify]
    exact hid
  obtain ⟨hok, hconnected⟩ :=
    connect_of_up (s := s.setTimeout id plan.connectTimeout) hup hid'
  generalize hconnect : (s.setTimeout id plan.connectTimeout).connect id = attempt
    at hok hconnected
  obtain ⟨_, t⟩ := attempt
  cases hok
  have hconnect : Server.network.connect id (s.setTimeout id plan.connectTimeout) = (.ok (), t) :=
    hconnect
  have hlast : handshake Server.network plan id s =
      (if plan.nodelay then Server.network.setNodelay id true else fun w => (.ok (), w))
        (t.setTimeout id plan.timeout) := by
    have hfirst : Server.network.setTimeout id plan.connectTimeout s =
        (.ok (), s.setTimeout id plan.connectTimeout) := rfl
    have hthird : Server.network.setTimeout id plan.timeout t =
        (.ok (), t.setTimeout id plan.timeout) := rfl
    rw [handshake, Attempt.andThen_of_ok hfirst, Attempt.andThen_of_ok hconnect,
      Attempt.andThen_of_ok hthird]
  rw [hlast]
  by_cases hnodelay : plan.nodelay
  · rw [if_pos hnodelay]
    refine ⟨_, rfl, ?_⟩
    rw [isConnected_setNodelay, isConnected_setTimeout]
    exact hconnected
  · rw [if_neg hnodelay]
    refine ⟨_, rfl, ?_⟩
    rw [isConnected_setTimeout]
    exact hconnected

/-- On a server that is up, a session can be renewed. -/
theorem renew_of_up (c : Connection SessionId) {s : Server} (hup : s.down = false) :
    ∃ id s', c.renew Server.network s = (.ok (), c.holding id, s') ∧ s'.isConnected id = true := by
  have hclose := quiet_close c s
  have hwithout : (c.close Server.network s).1 = c.without := by
    rw [close]
    split <;> rfl
  rw [renew]
  generalize c.close Server.network s = closed at hclose hwithout
  obtain ⟨_, t⟩ := closed
  cases hwithout
  have htup : t.down = false := by
    obtain ⟨_, _, _, ht⟩ := hclose
    rw [show t = _ from ht]
    exact hup
  have hid : t.sessions.size < (t.openSession c.plan.address).2.sessions.size := by
    show _ < (t.sessions.push {}).size
    rw [Array.size_push]
    exact Nat.lt_succ_self _
  obtain ⟨u, hshake, hconnected⟩ :=
    handshake_of_up c.plan (s := (t.openSession c.plan.address).2) htup hid
  refine ⟨t.sessions.size, u, ?_, hconnected⟩
  have hopen : Server.network.openSession c.plan.address t =
      (.ok t.sessions.size, (t.openSession c.plan.address).2) := rfl
  dsimp only [without]
  rw [hopen]
  dsimp only
  rw [hshake]
  rfl

/-- On a server that is up, there is always a session that can be used. -/
theorem ensureConnected_of_up (c : Connection SessionId) {s : Server} (hup : s.down = false) :
    ∃ id c' s', c.ensureConnected Server.network s = (.ok (), c', s') ∧ c'.session = some id ∧
      s'.isConnected id = true := by
  -- Where no session answers, the connection does not count as connected and gets a new one.
  have hrenew : ∀ c' : Connection SessionId, c.probe Server.network s = (none, c', s) →
      c'.connected = false → ∃ id c'' s', c.ensureConnected Server.network s = (.ok (), c'', s') ∧
        c''.session = some id ∧ s'.isConnected id = true := by
    intro c' hprobe hstate
    obtain ⟨id, t, hrenew, hconnected⟩ := renew_of_up c' hup
    refine ⟨id, c'.holding id, t, ?_, rfl, hconnected⟩
    simp only [ensureConnected, hprobe, connect, hstate, Bool.false_and, Bool.false_eq_true,
      if_false]
    exact hrenew
  cases hstate : c.state with
  | disconnected =>
    refine hrenew c ?_ (by simp [connected, hstate])
    simp only [probe, hstate]
  | connected =>
    cases hsession : c.session with
    | none =>
      refine hrenew c.without ?_ rfl
      simp only [probe, hstate, hsession]
    | some id =>
      by_cases hid : s.isConnected id = true
      · have hprobe : Server.network.isConnected id s = (true, s) := by rw [← hid]; rfl
        refine ⟨id, c, s, ?_, hsession, hid⟩
        simp only [ensureConnected, probe, hstate, hsession, hprobe]
      · have hprobe : Server.network.isConnected id s = (false, s) := by
          rw [← Bool.eq_false_iff.2 hid]; rfl
        refine hrenew c.without ?_ rfl
        simp only [probe, hstate, hsession, hprobe]

/-! ## Commands -/

/-- A command fails, or it is carried out. -/
theorem execute_cases (command : Command) (c : Connection SessionId) (s : Server) :
    (∃ e c' s', c.execute Server.network command s = (.error e, c', s') ∧ Failed s s') ∨
      ∃ r c' s', c.execute Server.network command s = (.ok r, c', s') ∧
        Carried s ⟨command, r⟩ s' := by
  have hquiet := quiet_ensureConnected c s
  rw [execute]
  split
  · next e c t heq =>
    rw [heq] at hquiet
    exact .inl ⟨e, c, t, rfl, s.failNext, hquiet⟩
  · next c t heq =>
    rw [heq] at hquiet
    have hquiet : Quiet s t := hquiet
    split
    · exact .inl ⟨_, c, t, rfl, s.failNext, hquiet⟩
    · next id hsession =>
      rcases Server.execute_cases id command t with hexec | ⟨e, n, hexec⟩
      · have hexec : Server.network.execute id command t = _ := hexec
        rw [hexec]
        exact .inr ⟨_, c, _, rfl, t, hquiet, rfl, rfl⟩
      · have hexec : Server.network.execute id command t = _ := hexec
        rw [hexec]
        exact .inl ⟨e, _, _, rfl, n, (hquiet.failNext n).trans (quiet_close c _)⟩

/-- On a server that is up and has no timeouts ordered, a command is carried out. -/
theorem execute_of_available (command : Command) (c : Connection SessionId) {s : Server}
    (hup : s.down = false) (hfail : s.failNext = 0) :
    ∃ r c' s', c.execute Server.network command s = (.ok r, c', s') ∧
      Carried s ⟨command, r⟩ s' := by
  obtain ⟨id, c', t, hensure, hsession, hconnected⟩ := ensureConnected_of_up c hup
  have hquiet : Quiet s t := by
    have h := quiet_ensureConnected c s
    rw [hensure] at h
    exact h
  have htfail : t.failNext = 0 := by
    obtain ⟨_, _, _, rfl⟩ := hquiet
    exact hfail
  have hexec : Server.network.execute id command t =
      (.ok (t.cache.apply t.now command).1,
        { t with
          cache := (t.cache.apply t.now command).2
          commands := t.commands ++ [command] }) := by
    show t.execute id command = _
    rw [Server.execute, if_neg (by simp [hconnected]), if_neg (by simp [htfail])]
  refine ⟨(t.cache.apply t.now command).1, c', _, ?_, t, hquiet, rfl, rfl⟩
  rw [execute, hensure]
  dsimp only
  rw [hsession]
  dsimp only
  rw [hexec]

end Connection

end CacheClient
