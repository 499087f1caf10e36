import CacheClient.Proofs.Cache.Connections
import CacheClient.Proofs.Connection
import Mathlib.Tactic.Tauto

/-!
# A dead session stays dead

Whether a session is connected is computed from two numbers: the epoch of the server and the one
that the session has kept from when it was connected. What it means is a statement about the past
(`Lives`): the session was connected, and since then it was not closed, and nothing ended all
sessions.

What an event does to these numbers is said once, in three equations (`epoch_step`, `down_step`,
`epoch_session_step`). They keep the invariant `Dated`: no session is of a later epoch than the
server, and while the server is down, none is of its present one. So going up again brings no
session back to life, and neither does anything else but connecting it.

The server also never notes more sessions closed than it has connected, because a session that is
closed had been connected and not closed since.

Main result: `dead_stays_dead`.
-/

namespace CacheClient.Server

/-! ## What events do to sessions -/

/-- The event ends every session there is. -/
def Event.endsAll : Event → Bool
  | .control .killConnections => true
  | .control (.setDown down) => down
  | _ => false

/-- The event ends a session. -/
def Event.ends (id : SessionId) (e : Event) : Bool :=
  e.endsAll || e = .close id

/-- The event connects some session. -/
def connects (e : Event) (s : Server) : Bool :=
  match e with
  | .connect id => (s.connect id).1.toOption.isSome
  | _ => false

/-- The number of times that a session is connected in a run. -/
def connected : List Event → Server → Nat
  | [], _ => 0
  | e :: events, s => (connects e s).toNat + connected events (step e s).2

/-- A session lives after a run: when it was open, it was connected, and nothing has ended it
since. -/
def Lives (id : SessionId) (events : List Event) (s : Server) : Prop :=
  ∃ before after, events = before ++ .connect id :: after ∧
    id < (run before s).sessions.size ∧ ((run before s).connect id).1 = .ok () ∧
    ∀ e ∈ after, e.ends id = false

variable {id : SessionId} {e : Event} {events : List Event} {s : Server}

theorem connect_eq_ok_iff : (s.connect id).1 = .ok () ↔ s.down = false := by
  rw [connect]
  cases s.down <;> simp

/-- Only control from outside brings a server down or begins a new epoch. -/
theorem epoch_down_step (h : ∀ c, e ≠ .control c) :
    (step e s).2.epoch = s.epoch ∧ (step e s).2.down = s.down := by
  have hquiet {s' : Server} (hs : Quiet s s') : s'.epoch = s.epoch ∧ s'.down = s.down := by
    obtain ⟨connections, sessions, calls, rfl⟩ := hs
    exact ⟨rfl, rfl⟩
  cases e with
  | openSession address => exact hquiet (quiet_openSession address s)
  | setTimeout a wait => exact hquiet (quiet_setTimeout a wait s)
  | setNodelay a on => exact hquiet (quiet_setNodelay a on s)
  | connect a => exact hquiet (quiet_connect a s)
  | close a => exact hquiet (quiet_close a s)
  | execute a command =>
    show (s.execute a command).2.epoch = s.epoch ∧ (s.execute a command).2.down = s.down
    rcases execute_cases a command s with hs | ⟨error, n, hs⟩ <;> simp [hs]
  | control c => exact absurd rfl (h c)

/-- Every end of all sessions begins a new epoch, and nothing else does. -/
theorem epoch_step (e : Event) (s : Server) :
    (step e s).2.epoch = s.epoch + e.endsAll.toNat := by
  cases e with
  | control c =>
    cases c with
    | setDown down => cases down <;> rfl
    | _ => rfl
  | _ => exact (epoch_down_step (by simp)).1

theorem down_step (e : Event) (s : Server) :
    (step e s).2.down.toNat ≤ s.down.toNat + e.endsAll.toNat := by
  cases e with
  | control c =>
    cases c with
    | setDown down => exact Nat.le_add_left _ _
    | _ => exact Nat.le_add_right _ _
  | _ => exact Nat.le_of_eq (congrArg Bool.toNat (epoch_down_step (by simp)).2)

theorem epoch_run (events : List Event) (s : Server) :
    (run events s).epoch = s.epoch + events.countP Event.endsAll := by
  induction events generalizing s with
  | nil => rfl
  | cons e events ih =>
    rw [run_cons, ih, epoch_step, List.countP_cons]
    cases e.endsAll <;> simp [Nat.add_right_comm, Nat.add_assoc]

theorem epoch_session_modify (a : SessionId) (f : Session → Session) (s : Server) :
    ((s.modify a f).session id).epoch =
      if a = id ∧ id < s.sessions.size then (f (s.session id)).epoch
      else (s.session id).epoch := by
  rw [session_modify]
  split <;> rfl

/-- Connecting a session dates it, closing it takes the date away, and nothing else does either. -/
theorem epoch_session_step (e : Event) (s : Server) (id : SessionId) :
    ((step e s).2.session id).epoch =
      if e = .connect id ∧ id < s.sessions.size ∧ s.down = false then some s.epoch
      else if e = .close id then none
      else (s.session id).epoch := by
  cases e with
  | openSession address =>
    refine (congrArg Session.epoch (session_openSession address s id)).trans ?_
    simp
  | setTimeout a wait | setNodelay a on =>
    refine (epoch_session_modify a _ s).trans ?_
    simp
  | connect a =>
    show ((s.connect a).2.session id).epoch = _
    rw [connect]
    cases hdown : s.down with
    | true => simp
    | false =>
      refine (epoch_session_modify a _ s).trans ?_
      simp
  | close a =>
    show ((s.close a).session id).epoch = _
    rw [close]
    split
    · next hopen =>
      refine (epoch_session_modify a _ s).trans ?_
      by_cases hid : a = id
      · subst hid
        simp [lt_size_of_isSome hopen]
      · simp [hid]
    · next hopen =>
      by_cases hid : a = id
      · subst hid
        simpa using hopen
      · simp [hid]
  | execute a command =>
    show ((s.execute a command).2.session id).epoch = _
    rcases execute_cases a command s with hs | ⟨error, n, hs⟩ <;> simp [hs, session]
  | control c => cases c <;> simp [step, control, session]

/-! ## Dates -/

/-- No session is of a later epoch than the server, and none of its present one while it is down. -/
def Dated (s : Server) : Prop :=
  ∀ id n, (s.session id).epoch = some n → n + s.down.toNat ≤ s.epoch

theorem dated_withVersion (version : String) : Dated (withVersion version) := by
  intro id n h
  simp [session, withVersion] at h

theorem dated_step (h : s.Dated) (e : Event) : (step e s).2.Dated := by
  intro id n hn
  have hdown := down_step e s
  rw [epoch_session_step] at hn
  rw [epoch_step]
  split at hn
  · next hconnect =>
    obtain ⟨rfl, -, hup⟩ := hconnect
    rw [hup] at hdown
    obtain rfl := Option.some.inj hn
    exact Nat.add_le_add_left hdown _
  · split at hn
    · cases hn
    · have hold := h id n hn
      omega

theorem Dated.isConnected_iff (h : s.Dated) :
    s.isConnected id = true ↔ (s.session id).epoch = some s.epoch := by
  rw [isConnected]
  constructor
  · intro hid
    simp_all
  · intro hid
    have hup : s.down = false := by
      have hle := h id s.epoch hid
      cases hdown : s.down with
      | false => rfl
      | true =>
        rw [hdown, Bool.toNat_true] at hle
        omega
    simp [hid, hup]

theorem isConnected_step (h : s.Dated) (e : Event) (id : SessionId) :
    (step e s).2.isConnected id = true ↔
      (e = .connect id ∧ id < s.sessions.size ∧ s.down = false) ∨
        s.isConnected id = true ∧ e.ends id = false := by
  rw [(dated_step h e).isConnected_iff, h.isConnected_iff, epoch_session_step, epoch_step]
  by_cases hconnect : e = .connect id ∧ id < s.sessions.size ∧ s.down = false
  · obtain ⟨rfl, hid, hup⟩ := hconnect
    simp [hid, hup, Event.endsAll]
  · rw [if_neg hconnect]
    by_cases hclose : e = .close id
    · simp [hclose, Event.ends]
    · rw [if_neg hclose]
      -- a new epoch is later than any that a session is of
      have hle : ∀ n, (s.session id).epoch = some n → n ≤ s.epoch := fun n hn =>
        Nat.le_of_add_right_le (h id n hn)
      cases hall : e.endsAll with
      | false => simp [hconnect, hclose, Event.ends, hall]
      | true =>
        simp only [hconnect, Event.ends, hall, Bool.true_or, Bool.toNat_true, false_or,
          Bool.true_eq_false, and_false, iff_false]
        intro hnew
        exact absurd (hle _ hnew) (Nat.not_succ_le_self _)

/-! ## Lives -/

theorem lives_cons :
    Lives id (e :: events) s ↔
      (e = .connect id ∧ id < s.sessions.size ∧ s.down = false) ∧
          (∀ x ∈ events, x.ends id = false) ∨
        Lives id events (step e s).2 := by
  constructor
  · rintro ⟨before, after, hevents, hid, hok, hafter⟩
    cases before with
    | nil =>
      obtain ⟨rfl, rfl⟩ := List.cons.inj hevents
      exact .inl ⟨⟨rfl, hid, connect_eq_ok_iff.1 hok⟩, hafter⟩
    | cons x before =>
      obtain ⟨rfl, rfl⟩ := List.cons.inj hevents
      exact .inr ⟨before, after, rfl, hid, hok, hafter⟩
  · rintro (⟨⟨rfl, hid, hup⟩, hafter⟩ | ⟨before, after, rfl, hid, hok, hafter⟩)
    · exact ⟨[], events, rfl, hid, connect_eq_ok_iff.2 hup, hafter⟩
    · exact ⟨e :: before, after, rfl, hid, hok, hafter⟩

/-- **A session is connected after a run exactly if it lives**, or was connected before the run and
nothing in it has ended it. -/
theorem isConnected_run (h : s.Dated) :
    (run events s).isConnected id = true ↔
      Lives id events s ∨ s.isConnected id = true ∧ ∀ e ∈ events, e.ends id = false := by
  induction events generalizing s with
  | nil => simp [Lives]
  | cons e events ih =>
    rw [run_cons, ih (dated_step h e), lives_cons, isConnected_step h]
    simp only [List.forall_mem_cons]
    tauto

/-! ## Counting -/

theorem countP_modify {α : Type} (p : α → Bool) (f : α → α) (xs : List α) (i : Nat) :
    (xs.modify i f).countP p + (xs[i]?.any p).toNat =
      xs.countP p + (xs[i]?.any fun x => p (f x)).toNat := by
  induction xs generalizing i with
  | nil => simp
  | cons x xs ih =>
    cases i with
    | zero => cases hx : p x <;> cases hf : p (f x) <;> simp [hx, hf]
    | succ i =>
      have h := ih i
      simp only [List.modify_succ_cons, List.countP_cons, List.getElem?_cons_succ]
      omega

/-- The number of sessions that have a date: they were connected, and not closed since. -/
def unclosed (s : Server) : Nat := s.sessions.toList.countP fun x => x.epoch.isSome

theorem unclosed_modify (id : SessionId) (f : Session → Session) (s : Server) :
    (s.modify id f).unclosed + (s.sessions[id]?.any fun x => x.epoch.isSome).toNat =
      s.unclosed + (s.sessions[id]?.any fun x => (f x).epoch.isSome).toNat := by
  have h := countP_modify (fun x : Session => x.epoch.isSome) f s.sessions.toList id
  rw [Array.getElem?_toList, ← Array.toList_modify] at h
  exact h

theorem unclosed_modify_of_epoch_eq {f : Session → Session} (hf : ∀ x, (f x).epoch = x.epoch)
    (id : SessionId) (s : Server) : (s.modify id f).unclosed = s.unclosed := by
  have h := unclosed_modify id f s
  simp only [hf] at h
  exact Nat.add_right_cancel h

theorem unclosed_connect_le (id : SessionId) (n : Nat) (s : Server) :
    (s.modify id fun x => { x with epoch := some n }).unclosed ≤ s.unclosed + 1 := by
  have h := unclosed_modify id (fun x => { x with epoch := some n }) s
  have hone := Bool.toNat_le (s.sessions[id]?.any fun x =>
    ({ x with epoch := some n } : Session).epoch.isSome)
  omega

theorem unclosed_close (id : SessionId) (s : Server) (hopen : (s.session id).epoch.isSome = true) :
    (s.modify id fun x => { x with epoch := none }).unclosed + 1 = s.unclosed := by
  have h := unclosed_modify id (fun x => { x with epoch := none }) s
  have hsession : (s.sessions[id]?.any fun x => x.epoch.isSome) = true := by
    rw [session, Array.getD_eq_getD_getElem?] at hopen
    cases hx : s.sessions[id]? with
    | none => simp [hx] at hopen
    | some x => simpa [hx] using hopen
  have hnone : (s.sessions[id]?.any fun x => (none : Option Nat).isSome) = false := by
    cases s.sessions[id]? <;> rfl
  rw [hsession, hnone] at h
  exact h

theorem connections_step (e : Event) (s : Server) :
    (step e s).2.cache.connections = s.cache.connections + (connects e s).toNat := by
  cases e with
  | connect a =>
    show (s.connect a).2.cache.connections =
      s.cache.connections + (s.connect a).1.toOption.isSome.toNat
    rw [connect]
    split <;> rfl
  | close a =>
    show (s.close a).cache.connections = s.cache.connections
    rw [close]
    split <;> rfl
  | execute a command =>
    show (s.execute a command).2.cache.connections = s.cache.connections
    rcases execute_cases a command s with hs | ⟨error, n, hs⟩
    · rw [hs]
      exact Cache.connections_apply ..
    · rw [hs]
  | control c => cases c <;> rfl
  | _ => rfl

theorem connections_run (events : List Event) (s : Server) :
    (run events s).cache.connections = s.cache.connections + connected events s := by
  induction events generalizing s with
  | nil => rfl
  | cons e events ih => rw [run_cons, ih, connections_step, connected, Nat.add_assoc]

/-- The number of times that the server has noted the close of a session. -/
def closes (s : Server) : Nat := s.calls.count .close

theorem closes_record (call : Call) (s : Server) :
    (s.record call).closes = s.closes + [call].count .close :=
  List.count_append

/-- A step that closes a session takes its date away, and one that dates a session connects it. -/
theorem closes_add_unclosed_step (e : Event) (s : Server) :
    (step e s).2.closes + (step e s).2.unclosed ≤
      s.closes + s.unclosed + (connects e s).toNat := by
  have hsame {s' : Server} (hcloses : s'.closes = s.closes) (hunclosed : s'.unclosed = s.unclosed) :
      s'.closes + s'.unclosed ≤ s.closes + s.unclosed :=
    Nat.le_of_eq (by rw [hcloses, hunclosed])
  cases e with
  | openSession address =>
    exact hsame (closes_record _ _) (by simp [step, openSession, record, unclosed])
  | setTimeout a wait =>
    exact hsame (closes_record _ _)
      (unclosed_modify_of_epoch_eq (f := fun x => { x with timeout := wait }) (fun _ => rfl) a s)
  | setNodelay a on =>
    exact hsame (closes_record _ _)
      (unclosed_modify_of_epoch_eq (f := fun x => { x with nodelay := on }) (fun _ => rfl) a s)
  | connect a =>
    show (s.connect a).2.closes + (s.connect a).2.unclosed ≤
      s.closes + s.unclosed + (s.connect a).1.toOption.isSome.toNat
    rw [connect]
    split
    · exact Nat.le_refl _
    · have hunclosed := unclosed_connect_le a s.epoch s
      dsimp only
      rw [closes_record]
      exact Nat.add_le_add_left hunclosed s.closes
  | close a =>
    show (s.close a).closes + (s.close a).unclosed ≤ s.closes + s.unclosed
    rw [close]
    split
    · next hopen =>
      have hunclosed := unclosed_close a s hopen
      rw [closes_record, ← hunclosed, Nat.add_comm _ 1, ← Nat.add_assoc]
      exact Nat.le_refl _
    · exact Nat.le_refl _
  | execute a command =>
    show (s.execute a command).2.closes + (s.execute a command).2.unclosed ≤
      s.closes + s.unclosed
    rcases execute_cases a command s with hs | ⟨error, n, hs⟩ <;> rw [hs] <;> exact Nat.le_refl _
  | control c =>
    cases c with
    | clearHistory => exact Nat.add_le_add_right (Nat.zero_le _) _
    | _ => exact Nat.le_refl _

/-- Each close that was noted, and each session that could be closed, had a connect of its own. -/
theorem closes_add_unclosed_run (events : List Event) (s : Server) :
    (run events s).closes + (run events s).unclosed ≤
      s.closes + s.unclosed + connected events s := by
  induction events generalizing s with
  | nil => exact Nat.le_refl _
  | cons e events ih =>
    have hstep := closes_add_unclosed_step e s
    have hrest := ih (step e s).2
    rw [run_cons, connected]
    omega

/-! ## Commands -/

theorem execute_eq_iff (id : SessionId) (command : Command) (s : Server) :
    (s.execute id command =
        (.ok (s.cache.apply s.now command).1,
          { s with
            cache := (s.cache.apply s.now command).2
            commands := s.commands ++ [command] }) ↔
      s.isConnected id = true ∧ s.failNext = 0) ∧
    (s.execute id command =
        (.error ⟨.timedOut, "injected timeout"⟩, { s with failNext := s.failNext - 1 }) ↔
      s.isConnected id = true ∧ 0 < s.failNext) ∧
    (s.execute id command =
        (.error ⟨.connectionReset, "connection reset by memory server"⟩, s) ↔
      ¬s.isConnected id = true) := by
  rw [execute]
  cases hid : s.isConnected id with
  | false => simp
  | true =>
    by_cases hfail : 0 < s.failNext
    · simp [hfail, Nat.pos_iff_ne_zero.1 hfail]
    · simp [Nat.eq_zero_of_not_pos hfail]

/-- **A dead session stays dead.** After any run of a fresh server, with any sessions, commands,
faults and outages,

* a session is connected exactly if it lives: it was connected, and has not been closed since, and
  neither were connections killed nor did the server go down, even if it is up again;
* a command is carried out and noted exactly if its session lives and no timeout is ordered; it
  times out, which uses up one of those ordered, exactly if its session lives and one is; and it is
  refused, with the server left as it is, exactly if its session does not live;
* no more sessions were closed than were connected, and the server counts those that were.

The epoch of the server, on which this rests, counts how often all sessions were ended, so it is a
word of 64 bits as long as this happens less than 2⁶⁴ times. -/
theorem dead_stays_dead (version : String) (events : List Event) :
    let start := withVersion version
    let s := run events start
    (∀ id, s.isConnected id = true ↔ Lives id events start) ∧
    (∀ id command,
      (s.execute id command =
          (.ok (s.cache.apply s.now command).1,
            { s with
              cache := (s.cache.apply s.now command).2
              commands := s.commands ++ [command] }) ↔
        Lives id events start ∧ s.failNext = 0) ∧
      (s.execute id command =
          (.error ⟨.timedOut, "injected timeout"⟩, { s with failNext := s.failNext - 1 }) ↔
        Lives id events start ∧ 0 < s.failNext) ∧
      (s.execute id command =
          (.error ⟨.connectionReset, "connection reset by memory server"⟩, s) ↔
        ¬Lives id events start)) ∧
    s.calls.count .close ≤ connected events start ∧
    s.cache.connections = connected events start ∧
    s.epoch = events.countP Event.endsAll := by
  intro start s
  have hlives : ∀ id, s.isConnected id = true ↔ Lives id events start := by
    intro id
    have hfresh : start.isConnected id = false := by
      simp [isConnected, session, start, withVersion]
    rw [isConnected_run (s := start) (dated_withVersion version), hfresh]
    simp
  refine ⟨hlives, ?_, ?_, ?_, ?_⟩
  · intro id command
    have hexecute := execute_eq_iff id command s
    rwa [hlives] at hexecute
  · have hrun := closes_add_unclosed_run events start
    have hzero : start.closes + start.unclosed = 0 := rfl
    rw [hzero, Nat.zero_add] at hrun
    exact Nat.le_of_add_right_le hrun
  · rw [connections_run]
    exact Nat.zero_add _
  · rw [epoch_run]
    exact Nat.zero_add _

/-- An outage ends a session for good: when the server is up again, it has to be connected anew. -/
example :
    let outage : List Event :=
      [.openSession "", .connect 0, .control (.setDown true), .control (.setDown false)]
    (run outage (withVersion "1")).isConnected 0 = false ∧
      (run (outage ++ [.connect 0]) (withVersion "1")).isConnected 0 = true := by
  decide +kernel

end CacheClient.Server
