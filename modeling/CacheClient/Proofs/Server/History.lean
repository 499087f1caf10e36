import CacheClient.Proofs.Cache
import CacheClient.Server

/-!
# What happened to a server

The history of a run is the list of its exchanges: the commands that were carried out, with their
responses. A command that a fault or a dead session kept away is not among them.

What follows from one state to the next is said once, in `Moves`: with an exchange, the cache has
changed as its command does; without one, items and tokens are the same; and the clock does not
go back. Every step is such a move (`moves_step`).
-/

namespace CacheClient.Server

/-- The exchange that an event makes, if it gets a command carried out. -/
def exchange? : Event → Server → Option Exchange
  | .execute id command, s => (s.execute id command).1.toOption.map fun r => ⟨command, r⟩
  | _, _ => none

/-- The exchanges of a run, in their order. -/
def history : List Event → Server → List Exchange
  | [], _ => []
  | e :: events, s => (exchange? e s).toList ++ history events (step e s).2

theorem run_append (events more : List Event) (s : Server) :
    run (events ++ more) s = run more (run events s) :=
  List.foldl_append

theorem history_append (events more : List Event) (s : Server) :
    history (events ++ more) s = history events s ++ history more (run events s) := by
  induction events generalizing s with
  | nil => rfl
  | cons e events ih => simp [history, ih]

/-! ## Steps -/

theorem execute_cases (id : SessionId) (command : Command) (s : Server) :
    (s.execute id command =
        (.ok (s.cache.apply s.now command).1,
          { s with
            cache := (s.cache.apply s.now command).2
            commands := s.commands ++ [command] })) ∨
      ∃ e n, s.execute id command = (.error e, { s with failNext := n }) := by
  rw [execute]
  split
  · exact .inr ⟨_, s.failNext, rfl⟩
  · split
    · exact .inr ⟨_, _, rfl⟩
    · exact .inl rfl

theorem exchange?_eq_some {e : Event} {s : Server} {x : Exchange} (h : exchange? e s = some x) :
    x.response = (s.cache.apply s.now x.command).1 ∧
      (step e s).2.cache = (s.cache.apply s.now x.command).2 := by
  cases e with
  | execute id command =>
    rw [exchange?] at h
    show _ ∧ (s.execute id command).2.cache = _
    rcases execute_cases id command s with hs | ⟨error, n, hs⟩
    · rw [hs] at h ⊢
      cases h
      exact ⟨rfl, rfl⟩
    · rw [hs] at h
      cases h
  | _ => cases h

theorem exchange?_eq_none {e : Event} {s : Server} (h : exchange? e s = none) :
    (step e s).2.cache.items = s.cache.items ∧
      (step e s).2.cache.lastToken = s.cache.lastToken := by
  cases e with
  | execute id command =>
    rw [exchange?] at h
    show (s.execute id command).2.cache.items = _ ∧ (s.execute id command).2.cache.lastToken = _
    rcases execute_cases id command s with hs | ⟨error, n, hs⟩
    · rw [hs] at h
      cases h
    · rw [hs]
      exact ⟨rfl, rfl⟩
  | connect id =>
    show (s.connect id).2.cache.items = _ ∧ (s.connect id).2.cache.lastToken = _
    rw [connect]
    split <;> exact ⟨rfl, rfl⟩
  | close id =>
    show (s.close id).cache.items = _ ∧ (s.close id).cache.lastToken = _
    rw [close]
    split <;> exact ⟨rfl, rfl⟩
  | control c => cases c <;> exact ⟨rfl, rfl⟩
  | _ => exact ⟨rfl, rfl⟩

theorem now_le_step (e : Event) (s : Server) : s.now ≤ (step e s).2.now := by
  cases e with
  | execute id command =>
    show s.now ≤ (s.execute id command).2.now
    rcases execute_cases id command s with hs | ⟨error, n, hs⟩ <;> simp [hs]
  | connect id =>
    show s.now ≤ (s.connect id).2.now
    rw [connect]
    split <;> exact Nat.le_refl _
  | close id =>
    show s.now ≤ (s.close id).now
    rw [close]
    split <;> exact Nat.le_refl _
  | control c =>
    cases c with
    | advance ms => exact Nat.le_add_right _ _
    | _ => exact Nat.le_refl _
  | _ => exact Nat.le_refl _

/-! ## Moves -/

/-- What follows from one state to the next, with at most one exchange. Sessions may have been
connected before it. -/
structure Moves (s : Server) (x? : Option Exchange) (s' : Server) : Prop where
  now_le : s.now ≤ s'.now
  /-- Without an exchange, items and tokens are the same. -/
  idle : x? = none →
    s'.cache.items = s.cache.items ∧ s'.cache.lastToken = s.cache.lastToken
  /-- With an exchange, its command has been carried out. -/
  carried : ∀ {x}, x? = some x → ∃ connections,
    x.response = ({ s.cache with connections }.apply s.now x.command).1 ∧
      s'.cache = ({ s.cache with connections }.apply s.now x.command).2

theorem moves_step (e : Event) (s : Server) : Moves s (exchange? e s) (step e s).2 where
  now_le := now_le_step e s
  idle h := exchange?_eq_none h
  carried h := ⟨s.cache.connections, exchange?_eq_some h⟩

namespace Moves

variable {s s' : Server} {x? : Option Exchange}

theorem effect (h : Moves s x? s') {x : Exchange} (hx : x? = some x) :
    Cache.Effect s.now x s.cache s'.cache := by
  obtain ⟨connections, hresponse, hcache⟩ := h.carried hx
  have heffect := Cache.effect_apply s.now x.command { s.cache with connections }
  rw [← hresponse, ← hcache] at heffect
  exact { heffect with }

theorem lastToken (h : Moves s x? s') :
    s'.cache.lastToken = s.cache.lastToken ∨ s'.cache.lastToken = s.cache.lastToken + 1 := by
  cases hx : x? with
  | none => exact .inl (h.idle hx).2
  | some x => exact (h.effect hx).lastToken

/-- An item that nobody disturbs stays, or goes past its deadline. -/
theorem item_of_not_disturbed (h : Moves s x? s') {k : Key}
    (hd : ∀ x, x? = some x → ¬x.Disturbs k) :
    s'.cache.items[k]? = s.cache.items[k]? ∨ s'.cache.items[k]? = s.cache.live? s.now k := by
  cases hx : x? with
  | none => exact .inl (by rw [(h.idle hx).1])
  | some x => exact (h.effect hx).frame (hd x hx)

/-- An item was there before, or it was written and has the next token. -/
theorem item_cases (h : Moves s x? s') {k : Key} {i : Cache.Entry}
    (hi : s'.cache.items[k]? = some i) :
    s.cache.items[k]? = some i ∨
      (∃ x, x? = some x ∧ x.written? = some k) ∧ i.token = s.cache.lastToken + 1 ∧
        s'.cache.lastToken = s.cache.lastToken + 1 := by
  by_cases hd : ∃ x, x? = some x ∧ x.Disturbs k
  · right
    obtain ⟨x, hx, hw | hr⟩ := hd
    · obtain ⟨hnext, j, hj, htoken⟩ := (h.effect hx).written hw
      rw [hi] at hj
      cases hj
      exact ⟨⟨x, hx, hw⟩, htoken.trans hnext, hnext⟩
    · rw [(h.effect hx).removed hr] at hi
      cases hi
  · left
    rcases h.item_of_not_disturbed fun x hx hk => hd ⟨x, hx, hk⟩ with hk | hk
    · rw [← hk, hi]
    · rw [hi] at hk
      exact (Cache.live?_eq_some_iff.1 hk.symm).1

end Moves

/-- An item is there, or it went past its deadline. -/
def Lingers (k : Key) (i : Cache.Entry) (s : Server) : Prop :=
  s.cache.items[k]? = some i ∨ s.cache.items[k]? = none ∧ i.isExpired s.now = true

/-- An item that nobody disturbs goes for no other reason. -/
theorem Moves.lingers {s s' : Server} {x? : Option Exchange} (hmoves : Moves s x? s') {k : Key}
    {i : Cache.Entry} (h : Lingers k i s) (hd : ∀ x, x? = some x → ¬x.Disturbs k) :
    Lingers k i s' := by
  rcases h with hi | ⟨hnone, hexpired⟩
  · rcases hmoves.item_of_not_disturbed hd with hk | hk
    · exact .inl (hk.trans hi)
    · rw [Cache.live?, hi] at hk
      by_cases hexpired : i.isExpired s.now = true
      · refine .inr ⟨?_, Cache.Entry.isExpired_mono hmoves.now_le hexpired⟩
        rw [hk]
        simp [hexpired]
      · refine .inl ?_
        rw [hk]
        simp [hexpired]
  · refine .inr ⟨?_, Cache.Entry.isExpired_mono hmoves.now_le hexpired⟩
    rcases hmoves.item_of_not_disturbed hd with hk | hk
    · rw [hk, hnone]
    · rw [hk, Cache.live?, hnone]
      rfl

/-- What is live of an item that goes for no other reason. -/
theorem Lingers.live?_eq {k : Key} {i : Cache.Entry} {s : Server} (h : Lingers k i s) :
    s.cache.live? s.now k = if i.isExpired s.now then none else some i := by
  rcases h with hi | ⟨hnone, hexpired⟩
  · rw [Cache.live?, hi]
    by_cases hexpired : i.isExpired s.now = true <;> simp [hexpired]
  · simp [Cache.live?, hnone, hexpired]

/-- From one state to the next, nobody disturbs a key. -/
def Spares (k : Key) (s s' : Server) : Prop :=
  ∃ x?, Moves s x? s' ∧ ∀ x, x? = some x → ¬x.Disturbs k

namespace Spares

variable {k : Key} {s s' : Server}

theorem of_none (h : Moves s none s') : Spares k s s' := ⟨none, h, by simp⟩

theorem of_some {x : Exchange} (h : Moves s (some x) s') (hd : ¬x.Disturbs k) : Spares k s s' :=
  ⟨some x, h, by simpa using hd⟩

theorem moves (h : Spares k s s') : ∃ x?, Moves s x? s' := by
  obtain ⟨x?, hmoves, -⟩ := h
  exact ⟨x?, hmoves⟩

/-- A live item stays. -/
theorem item_stays (h : Spares k s s') {i : Cache.Entry} (hi : s.cache.items[k]? = some i)
    (hlive : i.isExpired s.now = false) : s'.cache.items[k]? = some i := by
  obtain ⟨x?, hmoves, hd⟩ := h
  rcases hmoves.item_of_not_disturbed hd with hk | hk
  · rw [hk, hi]
  · rw [hk]
    exact Cache.live?_eq_some_iff.2 ⟨hi, hlive⟩

/-- What is live stays the same while no time passes. -/
theorem live?_eq (h : Spares k s s') (hnow : s'.now = s.now) :
    s'.cache.live? s'.now k = s.cache.live? s.now k := by
  obtain ⟨x?, hmoves, hd⟩ := h
  rw [Cache.live?, hnow]
  rcases hmoves.item_of_not_disturbed hd with hk | hk
  · rw [hk, Cache.live?]
  · rw [hk, Cache.live?, Option.filter_filter]
    simp

end Spares

end CacheClient.Server
