import CacheClient.Proofs.Cache.Eviction
import CacheClient.Proofs.Server.Absence
import Mathlib.Data.List.Induction
import Mathlib.Data.Set.Card

/-!
# Items that nobody came for

An item past its deadline stays among the items of a server until a command touches its key. So the
items are the live ones and those that have **lapsed** (`Lapsed`): they went past their deadline at
some step of the run, and no command has touched their key since.

One direction says that an item which is not touched stays. In the other, an item that is past its
deadline at the end of a run was live when it was written, since nothing else is ever written. Going
back from the end, no step can have touched its key until the step is found at which it went past
its deadline (`lapsed_of_expired`).

Main results: `exists_expired_iff`, `size_eq_ncard_iff`.
-/

namespace CacheClient

/-- The command looks for an item under a key: it names the key, or it removes everything. -/
def Command.Touches (k : Key) (command : Command) : Prop :=
  k ∈ command.keys ∨ command = .flushAll

namespace Server

/-- In a run, an item went past its deadline, and no command has touched its key since. -/
def Lapsed (k : Key) (events : List Event) (s : Server) : Prop :=
  ∃ before e after i, events = before ++ e :: after ∧
    (run before s).cache.items[k]? = some i ∧
    i.isExpired (run before s).now = false ∧
    i.isExpired (step e (run before s)).2.now = true ∧
    ∀ x ∈ history after (step e (run before s)).2, ¬x.command.Touches k

/-- No item is past its deadline. -/
def Unexpired (s : Server) : Prop :=
  ∀ (k : Key) (i : Cache.Entry), s.cache.items[k]? = some i → i.isExpired s.now = false

variable {k : Key} {i : Cache.Entry} {e : Event} {events : List Event} {s : Server} {x : Exchange}

/-! ## Touching -/

theorem now_step_of_exchange (hx : exchange? e s = some x) : (step e s).2.now = s.now := by
  cases e with
  | execute id command =>
    show (s.execute id command).2.now = s.now
    rcases execute_cases id command s with hs | ⟨error, n, hs⟩ <;> rw [hs]
  | _ => cases hx

theorem item_step_of_untouched (h : ∀ x, exchange? e s = some x → ¬x.command.Touches k) :
    (step e s).2.cache.items[k]? = s.cache.items[k]? := by
  cases hx : exchange? e s with
  | none => rw [(exchange?_eq_none hx).1]
  | some x =>
    obtain ⟨hkeys, hflush⟩ := not_or.1 (h x hx)
    rw [(exchange?_eq_some hx).2]
    exact Cache.getElem?_apply s.cache s.now hkeys hflush

theorem item_run_of_untouched (h : ∀ x ∈ history events s, ¬x.command.Touches k) :
    (run events s).cache.items[k]? = s.cache.items[k]? := by
  induction events generalizing s with
  | nil => rfl
  | cons e events ih =>
    simp only [history, List.mem_append, Option.mem_toList] at h
    rw [run_cons, ih fun x hx => h x (.inr hx)]
    exact item_step_of_untouched fun x hx => h x (.inl hx)

theorem not_isExpired_of_touched (hx : exchange? e s = some x) (htouches : x.command.Touches k)
    (hi : (step e s).2.cache.items[k]? = some i) : i.isExpired (step e s).2.now = false := by
  obtain ⟨hresponse, hcache⟩ := exchange?_eq_some hx
  rw [now_step_of_exchange hx]
  rw [hcache] at hi
  rcases htouches with hkeys | hflush
  · exact Cache.not_isExpired_apply hkeys hresponse hi
  · rw [hflush] at hi
    simp [Cache.apply] at hi

theorem now_le_run (events : List Event) (s : Server) : s.now ≤ (run events s).now := by
  induction events generalizing s with
  | nil => exact Nat.le_refl _
  | cons e events ih => exact Nat.le_trans (now_le_step e s) (ih _)

/-! ## Lapsing -/

theorem Lapsed.exists_expired (h : Lapsed k events s) :
    ∃ i, (run events s).cache.items[k]? = some i ∧ i.isExpired (run events s).now = true := by
  obtain ⟨before, e, after, i, rfl, hi, hlive, hexpired, huntouched⟩ := h
  refine ⟨i, ?_, ?_⟩
  · rw [run_append, run_cons, item_run_of_untouched huntouched, item_step_of_untouched, hi]
    -- time has passed at this step, so it is no exchange
    intro x hx
    rw [now_step_of_exchange hx, hlive] at hexpired
    cases hexpired
  · rw [run_append, run_cons]
    exact Cache.Entry.isExpired_mono (now_le_run after _) hexpired

theorem Lapsed.snoc (h : Lapsed k events s)
    (huntouched : ∀ x, exchange? e (run events s) = some x → ¬x.command.Touches k) :
    Lapsed k (events ++ [e]) s := by
  obtain ⟨before, first, after, i, rfl, hi, hlive, hexpired, hafter⟩ := h
  refine ⟨before, first, after ++ [e], i, by simp, hi, hlive, hexpired, ?_⟩
  intro x hx
  simp only [history_append, history, List.append_nil, List.mem_append, Option.mem_toList] at hx
  rcases hx with hx | hx
  · exact hafter x hx
  · rw [run_append, run_cons] at huntouched
    exact huntouched x hx

theorem lapsed_of_expired (hstart : s.Unexpired)
    (hi : (run events s).cache.items[k]? = some i)
    (hexpired : i.isExpired (run events s).now = true) : Lapsed k events s := by
  induction events using List.reverseRecOn with
  | nil =>
    rw [run_nil, hstart k i hi] at hexpired
    cases hexpired
  | append_singleton events e ih =>
    rw [run_append, run_cons, run_nil] at hi hexpired
    have huntouched : ∀ x, exchange? e (run events s) = some x → ¬x.command.Touches k := by
      intro x hx htouches
      rw [not_isExpired_of_touched hx htouches hi] at hexpired
      cases hexpired
    rw [item_step_of_untouched huntouched] at hi
    by_cases hbefore : i.isExpired (run events s).now = true
    · exact (ih hi hbefore).snoc huntouched
    · rw [Bool.not_eq_true] at hbefore
      exact ⟨events, e, [], i, rfl, hi, hbefore, hexpired, fun x hx => by cases hx⟩

/-- **An item past its deadline is among the items exactly if it has lapsed.** -/
theorem exists_expired_iff (hstart : s.Unexpired) :
    (∃ i, (run events s).cache.items[k]? = some i ∧ i.isExpired (run events s).now = true) ↔
      Lapsed k events s := by
  constructor
  · rintro ⟨i, hi, hexpired⟩
    exact lapsed_of_expired hstart hi hexpired
  · exact Lapsed.exists_expired

theorem unexpired_run_iff (hstart : s.Unexpired) :
    (run events s).Unexpired ↔ ∀ k, ¬Lapsed k events s := by
  simp only [← exists_expired_iff hstart, not_exists, not_and, Bool.not_eq_true, Unexpired]

theorem unexpired_withVersion (version : String) : (withVersion version).Unexpired := by
  intro k i hi
  rw [withVersion, Std.ExtTreeMap.getElem?_empty] at hi
  cases hi

/-! ## Numbers of items -/

end Server

theorem KeyMap.ncard_eq_size {α : Type} (m : KeyMap α) : {k : Key | k ∈ m}.ncard = m.size := by
  have hkeys : {k : Key | k ∈ m} = (m.keys.toFinset : Set Key) := by
    ext k
    simp
  rw [hkeys, Set.ncard_coe_finset, List.toFinset_card_of_nodup Std.ExtTreeMap.nodup_keys,
    Std.ExtTreeMap.length_keys]

namespace Server

variable (s : Server)

/-- The live items are those that a sweep leaves. -/
theorem ncard_not_absent : {k | ¬s.Absent k}.ncard = (s.cache.sweep s.now).items.size := by
  rw [← KeyMap.ncard_eq_size]
  congr 1
  ext k
  simp only [Set.mem_ofPred_eq, Absent, ← Cache.getElem?_sweep]
  rw [Std.ExtTreeMap.mem_iff_isSome_getElem?, Option.isSome_iff_ne_none]

theorem ncard_not_absent_le_size : {k | ¬s.Absent k}.ncard ≤ s.cache.items.size := by
  rw [ncard_not_absent]
  exact Std.ExtTreeMap.size_filter_le_size

theorem size_eq_ncard_iff : s.cache.items.size = {k | ¬s.Absent k}.ncard ↔ s.Unexpired := by
  rw [ncard_not_absent, eq_comm, Cache.sweep, Std.ExtTreeMap.size_filter_eq_size_iff]
  constructor
  · intro h k i hi
    obtain ⟨hmem, rfl⟩ := Std.ExtTreeMap.getElem?_eq_some_iff.1 hi
    simpa using h k hmem
  · intro h k hmem
    simpa using h k _ (Std.ExtTreeMap.getElem?_eq_some_getElem hmem)

end Server

end CacheClient
