import CacheClient.Proofs.Cache
import Mathlib.Data.List.Forall2

/-!
# Late eviction does not show

A cache keeps an item that is past its deadline until a command touches its key. A cache that is
**swept** before each command (`Cache.applySwept`) never holds such an item when the command
looks. The two give the same responses, and their unexpired items, tokens and counters stay the
same; the one thing that shows is the count of items in the statistics.

The proof compares a cache with its own sweep. A command starts by touching its key, and then
the cache and its sweep look the same at that key (`exists_touched`). What the command writes
there it writes to both, and sweeping once more drops the rest.

Main result: `eviction_unobservable`.
-/

namespace CacheClient

/-- Two responses are the same, except that the first may count more items in a table of
statistics. -/
inductive Response.Agrees : Response → Response → Prop
  | same (r : Response) : Agrees r r
  | stats (front back : List (String × String)) {n m : Nat} (h : m ≤ n) :
      Agrees (.stats (front ++ ("curr_items", toString n) :: back))
        (.stats (front ++ ("curr_items", toString m) :: back))

namespace Cache

/-! ## Sweeping -/

/-- The cache without the items that are past their deadline. -/
def sweep (now : Nat) (c : Cache) : Cache :=
  { c with items := c.items.filter fun _ i => !i.isExpired now }

/-- Carry out a command on a swept cache. -/
def applySwept (now : Nat) (command : Command) (c : Cache) : Response × Cache :=
  (c.sweep now).apply now command

variable {now : Nat} {k : Key} {c : Cache}

/-- What is left by a sweep are the live items. -/
@[simp] theorem getElem?_sweep (now : Nat) (k : Key) (c : Cache) :
    (c.sweep now).items[k]? = c.live? now k :=
  Std.ExtTreeMap.getElem?_filter'

theorem filter_items_eq {c d : Cache} (h : ∀ k, c.live? now k = d.live? now k) :
    (c.items.filter fun _ i => !i.isExpired now) = d.items.filter fun _ i => !i.isExpired now := by
  apply Std.ExtTreeMap.ext_getElem?
  intro k
  have hk := h k
  rwa [← getElem?_sweep, ← getElem?_sweep] at hk

/-- What is past its deadline now is past it later, so an earlier sweep does not matter. -/
theorem sweep_sweep {now later : Nat} (h : now ≤ later) (c : Cache) :
    (c.sweep now).sweep later = c.sweep later := by
  have hlive (k : Key) : (c.sweep now).live? later k = c.live? later k := by
    rw [live?, getElem?_sweep, live?, live?, Option.filter_filter]
    congr 1
    funext i
    cases hi : i.isExpired now with
    | false => simp
    | true => simp [Entry.isExpired_mono h hi]
  rw [sweep, filter_items_eq hlive]
  rfl

theorem sweep_touch (now : Nat) (k : Key) (c : Cache) :
    (c.touch now k).sweep now = c.sweep now := by
  rw [sweep, filter_items_eq fun a => live?_touch now k a c, touch_eq]
  rfl

/-- A touch finds nothing to remove in a swept cache. -/
theorem touch_sweep (now : Nat) (k : Key) (c : Cache) :
    (c.sweep now).touch now k = c.sweep now := by
  rw [touch, getElem?_sweep]
  split
  · next i hi => rw [if_neg (by simp [(live?_eq_some_iff.1 hi).2])]
  · rfl

/-- A touched cache and its sweep look the same at the key. -/
theorem exists_touched (now : Nat) (k : Key) (c : Cache) :
    ∃ t, c.touch now k = t ∧ (c.sweep now).touch now k = t.sweep now ∧
      (t.sweep now).items[k]? = t.items[k]? := by
  refine ⟨c.touch now k, rfl, ?_, ?_⟩
  · rw [touch_sweep, sweep_touch]
  · rw [getElem?_sweep, live?_touch, getElem?_touch_self]

/-! ## Changes of one item -/

/-- Results that are the same once the caches are swept. -/
def Alike {α : Type} (now : Nat) (x y : α × Cache) : Prop :=
  x.1 = y.1 ∧ x.2.sweep now = y.2.sweep now

theorem alike_sweep {α : Type} (now : Nat) (x : α) (c : Cache) :
    Alike now (x, c) (x, c.sweep now) :=
  ⟨rfl, (sweep_sweep (Nat.le_refl now) c).symm⟩

theorem filter_insert_filter {α : Type} (p : α → Bool) (m : KeyMap α) (k : Key) (x : α) :
    ((m.filter fun _ i => p i).insert k x).filter (fun _ i => p i) =
      (m.insert k x).filter fun _ i => p i := by
  apply Std.ExtTreeMap.ext_getElem?
  intro a
  simp only [Std.ExtTreeMap.getElem?_filter', KeyMap.getElem?_insert]
  split
  · rfl
  · simp [Option.filter_filter]

theorem filter_erase_filter {α : Type} (p : α → Bool) (m : KeyMap α) (k : Key) :
    ((m.filter fun _ i => p i).erase k).filter (fun _ i => p i) =
      (m.erase k).filter fun _ i => p i := by
  apply Std.ExtTreeMap.ext_getElem?
  intro a
  simp only [Std.ExtTreeMap.getElem?_filter', KeyMap.getElem?_erase]
  split
  · rfl
  · simp [Option.filter_filter]

theorem alike_put {α : Type} (x : α) (now : Nat) (k : Key) (data : Bytes) (ttl flags : UInt32)
    (c : Cache) :
    Alike now (x, c.put now k data ttl flags) (x, (c.sweep now).put now k data ttl flags) := by
  refine ⟨rfl, ?_⟩
  simp only [sweep, put, filter_insert_filter]

theorem alike_update {α : Type} (x : α) (now : Nat) (k : Key) (data : Bytes) (i : Entry)
    (c : Cache) : Alike now (x, c.update k data i) (x, (c.sweep now).update k data i) := by
  refine ⟨rfl, ?_⟩
  simp only [sweep, update, filter_insert_filter]

/-! ## Commands -/

theorem alike_fetch (now : Nat) (withToken : Bool) (k : Key) (c : Cache) :
    Alike now (c.fetch now withToken k) ((c.sweep now).fetch now withToken k) := by
  obtain ⟨t, htouch, hswept, hk⟩ := exists_touched now k c
  rw [fetch, fetch, htouch, hswept, hk]
  cases t.items[k]? with
  | none => exact alike_sweep now none { t with misses := t.misses + 1 }
  | some i => exact alike_sweep now _ { t with hits := t.hits + 1 }

theorem alike_fetchAll (now : Nat) (withToken : Bool) (found : KeyMap Item) {c d : Cache}
    (h : c.sweep now = d.sweep now) (keys : List Key) :
    Alike now (c.fetchAll now withToken found keys) (d.fetchAll now withToken found keys) := by
  induction keys generalizing found c d with
  | nil => exact ⟨rfl, h⟩
  | cons k keys ih =>
    obtain ⟨hc, hc'⟩ := alike_fetch now withToken k c
    obtain ⟨hd, hd'⟩ := alike_fetch now withToken k d
    rw [h] at hc hc'
    rw [fetchAll_cons, fetchAll_cons, hc, hd]
    exact ih _ (hc'.trans hd'.symm)

theorem alike_store (now : Nat) (mode : StoreMode) (k : Key) (data : Bytes) (ttl flags : UInt32)
    (c : Cache) :
    Alike now (c.store now mode k data ttl flags)
      ((c.sweep now).store now mode k data ttl flags) := by
  obtain ⟨t, htouch, hswept, hk⟩ := exists_touched now k { c with stores := c.stores + 1 }
  have hswept : { c.sweep now with stores := (c.sweep now).stores + 1 }.touch now k =
      t.sweep now := hswept
  unfold store
  rw [htouch, hswept]
  dsimp only
  rw [hk]
  have hput := alike_put StoreOutcome.stored now k data ttl flags t
  have hidle := alike_sweep now StoreOutcome.notStored t
  cases mode with
  | set => exact hput
  | add =>
    cases t.items[k]? with
    | none => exact hput
    | some i => exact hidle
  | replace =>
    cases t.items[k]? with
    | none => exact hidle
    | some i => exact hput
  | append =>
    cases t.items[k]? with
    | none => exact alike_sweep now _ { t with lastToken := t.lastToken + 1 }
    | some i => exact alike_update _ now k _ i t
  | prepend =>
    cases t.items[k]? with
    | none => exact alike_sweep now _ { t with lastToken := t.lastToken + 1 }
    | some i => exact alike_update _ now k _ i t

theorem alike_compareAndSet (now : Nat) (k : Key) (data : Bytes) (token : Token)
    (ttl flags : UInt32) (c : Cache) :
    Alike now (c.compareAndSet now k data token ttl flags)
      ((c.sweep now).compareAndSet now k data token ttl flags) := by
  obtain ⟨t, htouch, hswept, hk⟩ := exists_touched now k { c with stores := c.stores + 1 }
  have hswept : { c.sweep now with stores := (c.sweep now).stores + 1 }.touch now k =
      t.sweep now := hswept
  rw [compareAndSet, compareAndSet, htouch, hswept, hk]
  cases t.items[k]? with
  | none => exact alike_sweep now _ t
  | some i =>
    dsimp only
    split
    · exact alike_put _ now k data ttl flags t
    · exact alike_sweep now _ t

theorem alike_count (now : Nat) (change : UInt64 → UInt64) (k : Key) (c : Cache) :
    Alike now (c.count now change k) ((c.sweep now).count now change k) := by
  obtain ⟨t, htouch, hswept, hk⟩ := exists_touched now k c
  rw [count, count, htouch, hswept, hk]
  cases t.items[k]? with
  | none => exact alike_sweep now _ t
  | some i =>
    dsimp only
    split
    · exact alike_sweep now _ t
    · exact alike_update _ now k _ i t

theorem alike_delete (now : Nat) (k : Key) (c : Cache) :
    Alike now (c.delete now k) ((c.sweep now).delete now k) := by
  obtain ⟨t, htouch, hswept, hk⟩ := exists_touched now k c
  rw [delete, delete, htouch, hswept, hk]
  cases t.items[k]? with
  | none => exact alike_sweep now _ t
  | some i =>
    refine ⟨rfl, ?_⟩
    simp only [sweep, filter_erase_filter]

theorem Alike.map {α β : Type} {x y : α × Cache} (h : Alike now x y) (f : α → β) :
    Alike now (f x.1, x.2) (f y.1, y.2) :=
  ⟨congrArg f h.1, h.2⟩

/-- **A command does not tell a cache from its sweep**, unless it asks for the statistics. -/
theorem alike_apply {command : Command} (h : command ≠ .stats) (now : Nat) (c : Cache) :
    Alike now (c.apply now command) (c.applySwept now command) := by
  have hsweep : c.sweep now = (c.sweep now).sweep now := (sweep_sweep (Nat.le_refl now) c).symm
  cases command with
  | get k => exact (alike_fetch now false k c).map Response.item
  | gets k => exact (alike_fetch now true k c).map Response.item
  | getMulti keys => exact (alike_fetchAll now false ∅ hsweep keys).map Response.items
  | getsMulti keys => exact (alike_fetchAll now true ∅ hsweep keys).map Response.items
  | store mode k data ttl flags =>
    exact (alike_store now mode k data ttl flags c).map Response.store
  | cas k data token ttl flags =>
    exact (alike_compareAndSet now k data token ttl flags c).map Response.store
  | incr k amount => exact alike_count now _ k c
  | decr k amount => exact alike_count now _ k c
  | delete k => exact (alike_delete now k c).map Response.deleted
  | flushAll => exact ⟨rfl, rfl⟩
  | stats => exact absurd rfl h
  | version => exact alike_sweep now _ c

theorem apply_agrees (now : Nat) (command : Command) (c : Cache) :
    (c.apply now command).1.Agrees (c.applySwept now command).1 ∧
      (c.apply now command).2.sweep now = (c.applySwept now command).2.sweep now := by
  by_cases h : command = .stats
  · subst h
    refine ⟨?_, (alike_sweep now () c).2⟩
    exact .stats [("version", c.version)] _ Std.ExtTreeMap.size_filter_le_size
  · obtain ⟨hresponse, hcache⟩ := alike_apply h now c
    refine ⟨?_, hcache⟩
    rw [hresponse]
    exact .same _

/-! ## Sequences of commands -/

/-- Carry out commands, each after some time has passed. The results are the responses, the time
and the cache at the end. -/
def timeline (serve : Nat → Command → Cache → Response × Cache) :
    List (Nat × Command) → Nat → Cache → List Response × Nat × Cache
  | [], now, c => ([], now, c)
  | (wait, command) :: rest, now, c =>
    let (response, c) := serve (now + wait) command c
    let (responses, now, c) := timeline serve rest (now + wait) c
    (response :: responses, now, c)

theorem timeline_agrees (steps : List (Nat × Command)) (now : Nat) {c d : Cache}
    (h : c.sweep now = d.sweep now) :
    let late := timeline apply steps now c
    let early := timeline applySwept steps now d
    List.Forall₂ Response.Agrees late.1 early.1 ∧ late.2.1 = early.2.1 ∧
      late.2.2.sweep late.2.1 = early.2.2.sweep early.2.1 := by
  induction steps generalizing now c d with
  | nil => exact ⟨.nil, rfl, h⟩
  | cons step steps ih =>
    obtain ⟨wait, command⟩ := step
    -- the two caches have the same sweep, now and after the wait
    have hlater : c.sweep (now + wait) = d.sweep (now + wait) := by
      rw [← sweep_sweep (Nat.le_add_right now wait) c, h, sweep_sweep (Nat.le_add_right now wait)]
    have hserve : c.applySwept (now + wait) command = d.applySwept (now + wait) command := by
      rw [applySwept, hlater, applySwept]
    obtain ⟨hresponse, hcache⟩ := apply_agrees (now + wait) command c
    rw [hserve] at hresponse hcache
    obtain ⟨hresponses, hrest⟩ := ih (now + wait) hcache
    exact ⟨.cons hresponse hresponses, hrest⟩

/-- **Late eviction does not show.** Carry out any commands, with any time passing before each
of them, on a cache and on one that is swept before each command. The responses are the same,
except that the statistics may count more items. After the last command, and so after each of
them, the unexpired items are the same, with their bytes, flags, tokens and deadlines, and so
are the last token and all that was counted. -/
theorem eviction_unobservable (steps : List (Nat × Command)) (now : Nat) (c : Cache) :
    let late := timeline apply steps now c
    let early := timeline applySwept steps now c
    List.Forall₂ Response.Agrees late.1 early.1 ∧ late.2.1 = early.2.1 ∧
      late.2.2.sweep late.2.1 = early.2.2.sweep early.2.1 :=
  timeline_agrees steps now rfl

end Cache

end CacheClient
