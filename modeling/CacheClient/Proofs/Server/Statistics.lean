import CacheClient.Proofs.Cache.Figures
import CacheClient.Proofs.Server.Expiry
import CacheClient.Proofs.Server.Sessions

/-!
# Statistics are a count of the past

The statistics of a server show figures that it keeps as it goes along, and the number of its items.
After a run, each figure is a number that can be counted in the run itself: the sessions that were
connected, the keys that commands have read with and without success (`readings`), and the commands
that brought a value. A command that was refused is not part of the history, so it counts nowhere.

What a step adds to the figures is what the run has more by it, and the rest is induction
(`figures_run`). The number of items is settled by which of them have lapsed.

Main result: `statistics_count_the_past`.
-/

namespace CacheClient.Server

/-- The reads of a run, in their order: the keys that commands have read, each with the live item
that was under it at that time. -/
def readings : List Event → Server → List (Key × Option Cache.Entry)
  | [], _ => []
  | e :: events, s =>
    ((exchange? e s).elim [] fun x => x.command.reads.map fun k => (k, s.cache.live? s.now k)) ++
      readings events (step e s).2

variable {e : Event} {events : List Event} {s : Server} {x : Exchange}

/-! ## Figures -/

theorem figures_step_of_none (hx : exchange? e s = none) :
    (step e s).2.cache.figures = s.cache.figures := by
  cases e with
  | execute id command =>
    rw [exchange?] at hx
    show (s.execute id command).2.cache.figures = _
    rcases execute_cases id command s with hs | ⟨error, n, hs⟩
    · rw [hs] at hx
      cases hx
    · rw [hs]
  | connect id =>
    show (s.connect id).2.cache.figures = _
    rw [connect]
    split <;> rfl
  | close id =>
    show (s.close id).cache.figures = _
    rw [close]
    split <;> rfl
  | control c => cases c <;> rfl
  | _ => rfl

theorem figures_step_of_some (hx : exchange? e s = some x) :
    (step e s).2.cache.figures =
      { s.cache.figures with
        hits := s.cache.figures.hits +
          x.command.reads.countP fun k => (s.cache.live? s.now k).isSome
        misses := s.cache.figures.misses +
          x.command.reads.countP fun k => (s.cache.live? s.now k).isNone
        stores := s.cache.figures.stores + x.command.stores.toNat } := by
  rw [(exchange?_eq_some hx).2]
  exact Cache.figures_apply s.now x.command s.cache

/-- **The figures of a server count the commands of a run.** -/
theorem figures_run (events : List Event) (s : Server) :
    (run events s).cache.figures =
      { s.cache.figures with
        hits := s.cache.figures.hits + (readings events s).countP fun r => r.2.isSome
        misses := s.cache.figures.misses + (readings events s).countP fun r => r.2.isNone
        stores := s.cache.figures.stores + (history events s).countP fun x => x.command.stores } := by
  induction events generalizing s with
  | nil => rfl
  | cons e events ih =>
    rw [run_cons, ih, readings, history]
    cases hx : exchange? e s with
    | none =>
      rw [figures_step_of_none hx]
      rfl
    | some x =>
      have hstores (xs : List Exchange) :
          (x :: xs).countP (fun x => x.command.stores) =
            x.command.stores.toNat + xs.countP fun x => x.command.stores := by
        rw [List.countP_cons, Nat.add_comm]
        cases x.command.stores <;> rfl
      rw [figures_step_of_some hx]
      simp [hstores, List.countP_map, Function.comp_def, Nat.add_assoc]

theorem map_fst_readings (events : List Event) (s : Server) :
    (readings events s).map Prod.fst = (history events s).flatMap fun x => x.command.reads := by
  induction events generalizing s with
  | nil => rfl
  | cons e events ih =>
    rw [readings, history, List.map_append, List.flatMap_append, ih]
    cases exchange? e s with
    | none => rfl
    | some x => simp [Function.comp_def]

/-! ## Bounds -/

theorem length_history_le (events : List Event) (s : Server) :
    (history events s).length ≤ events.length := by
  induction events generalizing s with
  | nil => exact Nat.le_refl _
  | cons e events ih =>
    have hhead : (exchange? e s).toList.length ≤ 1 := by cases exchange? e s <;> simp
    have hrest := ih (step e s).2
    rw [history, List.length_append, List.length_cons]
    omega

theorem connected_le_length (events : List Event) (s : Server) :
    connected events s ≤ events.length := by
  induction events generalizing s with
  | nil => exact Nat.le_refl _
  | cons e events ih =>
    have hhead := Bool.toNat_le (connects e s)
    have hrest := ih (step e s).2
    rw [connected, List.length_cons]
    omega

/-! ## The answer -/

theorem execute_fst_eq_ok_iff {id : SessionId} {command : Command} {response : Response} :
    (s.execute id command).1 = .ok response ↔
      (s.isConnected id = true ∧ s.failNext = 0) ∧
        response = (s.cache.apply s.now command).1 := by
  rw [execute]
  cases hid : s.isConnected id with
  | false => simp
  | true =>
    by_cases hfail : 0 < s.failNext
    · simp [hfail, Nat.pos_iff_ne_zero.1 hfail]
    · simp [Nat.eq_zero_of_not_pos hfail, eq_comm]

theorem length_readings :
    (readings events s).length =
      ((readings events s).countP fun r => r.2.isSome) +
        (readings events s).countP fun r => r.2.isNone := by
  have hnone : (fun r : Key × Option Cache.Entry => decide ¬r.2.isSome = true) =
      fun r => r.2.isNone := by
    funext ⟨k, found⟩
    cases found <;> rfl
  rw [List.length_eq_countP_add_countP fun r => r.2.isSome, hnone]

/-- **Statistics count the past.** After any run of a fresh server, with any sessions, commands,
waits, faults and forgotten histories, a session that is connected while no timeout is ordered is
told the following, and other sessions are not answered:

* the number of connects that succeeded;
* the number of keys that commands have read, repetitions included. It is the sum of the hits, which
  found a live item under the key at that time, and the misses, which did not;
* the number of commands that brought a value, whatever became of it;
* the number of items. There are at least as many as live ones, and just as many exactly if no
  item has lapsed, which is to go past its deadline without being touched since.

The commands are those that were carried out. Neither a removal of all items nor a forgotten history
makes a number smaller.

No number is larger than both the number of steps and that of the keys that were read. So they are
words of 64 bits, as a server keeps them, in every run in which these two are below 2⁶⁴. -/
theorem statistics_count_the_past (version : String) (events : List Event) :
    let start := withVersion version
    let s := run events start
    let commands := (history events start).map fun x => x.command
    let keys := commands.flatMap Command.reads
    let hits := (readings events start).countP fun r => r.2.isSome
    let misses := (readings events start).countP fun r => r.2.isNone
    let live := {k | ¬s.Absent k}.ncard
    (∀ id response, (s.execute id .stats).1 = .ok response ↔
      (s.isConnected id = true ∧ s.failNext = 0) ∧
        response = .stats
          [("version", version), ("curr_items", toString s.cache.items.size),
            ("total_connections", toString (connected events start)),
            ("cmd_get", toString keys.length),
            ("cmd_set", toString (commands.countP Command.stores)),
            ("get_hits", toString hits), ("get_misses", toString misses)]) ∧
    (readings events start).map Prod.fst = keys ∧ keys.length = hits + misses ∧
    live ≤ s.cache.items.size ∧
    (s.cache.items.size = live ↔ ∀ k, ¬Lapsed k events start) ∧
    ∀ figure ∈ [s.cache.connections, s.cache.hits + s.cache.misses, s.cache.stores, s.cache.hits,
        s.cache.misses], figure ≤ max events.length keys.length := by
  intro start s commands keys hits misses live
  have hkeys : (readings events start).map Prod.fst = keys := by
    rw [map_fst_readings]
    simp only [keys, commands, List.flatMap_map]
  have hlength : keys.length = hits + misses := by
    rw [← hkeys, List.length_map, length_readings]
  have hfigures : s.cache.figures =
      ⟨version, hits, misses, commands.countP Command.stores⟩ := by
    rw [figures_run, List.countP_map]
    simp only [start, withVersion, Cache.figures, Nat.zero_add]
    rfl
  have hconnections : s.cache.connections = connected events start := by
    rw [connections_run]
    exact Nat.zero_add _
  refine ⟨?_, hkeys, hlength, ncard_not_absent_le_size s, ?_, ?_⟩
  · intro id response
    rw [execute_fst_eq_ok_iff, Cache.apply, Cache.stats_eq, hfigures, hconnections, ← hlength]
  · rw [size_eq_ncard_iff]
    exact unexpired_run_iff (unexpired_withVersion version)
  · have hconnected := connected_le_length events start
    have hstores : commands.countP Command.stores ≤ events.length :=
      calc commands.countP Command.stores ≤ commands.length := List.countP_le_length
        _ = (history events start).length := List.length_map ..
        _ ≤ events.length := length_history_le events start
    have hhits : s.cache.hits = hits := congrArg Cache.Figures.hits hfigures
    have hmisses : s.cache.misses = misses := congrArg Cache.Figures.misses hfigures
    have hcounted : s.cache.stores = commands.countP Command.stores :=
      congrArg Cache.Figures.stores hfigures
    rw [hconnections, hhits, hmisses, hcounted, ← hlength]
    have hbound {n : Nat} (h : n ≤ events.length ∨ n ≤ keys.length) :
        n ≤ max events.length keys.length := le_max_iff.2 h
    have hle : hits ≤ keys.length ∧ misses ≤ keys.length := by omega
    intro figure hmem
    simp only [List.mem_cons, List.not_mem_nil, or_false] at hmem
    rcases hmem with rfl | rfl | rfl | rfl | rfl
    · exact hbound (.inl hconnected)
    · exact hbound (.inr (Nat.le_refl _))
    · exact hbound (.inl hstores)
    · exact hbound (.inr hle.1)
    · exact hbound (.inr hle.2)

/-- An item whose second is over is among the items until a command names its key. -/
example :
    let k : Key := ⟨[107], List.cons_ne_nil _ _, List.forall_mem_singleton.2 rfl⟩
    let events : List Event :=
      [.openSession "", .connect 0, .execute 0 (.store .set k [49] 1 0), .control (.advance 1000)]
    (run events (withVersion "1")).cache.items.size = 1 ∧
      (run (events ++ [.execute 0 (.get k)]) (withVersion "1")).cache.items.size = 0 := by
  decide +kernel

end CacheClient.Server
