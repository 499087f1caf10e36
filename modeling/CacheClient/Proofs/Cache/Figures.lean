import CacheClient.Proofs.Cache

/-!
# What a cache counts

The statistics of a cache show its version and what it has counted of commands: hits, misses and
stores. A command adds as many hits as it reads keys with a live item, as many misses as it reads
other keys, and one store if it brings a value, whatever becomes of it. Nothing else changes these
figures (`figures_apply`).
-/

namespace CacheClient

/-! ## Commands that are counted -/

/-- The keys that a command reads, with repetitions. -/
def Command.reads : Command → List Key
  | .get key | .gets key => [key]
  | .getMulti keys | .getsMulti keys => keys
  | _ => []

/-- The command brings a value to be stored. -/
def Command.stores : Command → Bool
  | .store .. | .cas .. => true
  | _ => false

namespace Cache

/-- The version of a cache, and what it has counted of commands. -/
structure Figures where
  version : String
  hits : Nat
  misses : Nat
  stores : Nat

/-- The figures of a cache. -/
def figures (c : Cache) : Figures := ⟨c.version, c.hits, c.misses, c.stores⟩

/-- The statistics show the figures, the number of items and the count of connections. -/
theorem stats_eq (c : Cache) :
    c.stats =
      [("version", c.figures.version), ("curr_items", toString c.items.size),
        ("total_connections", toString c.connections),
        ("cmd_get", toString (c.figures.hits + c.figures.misses)),
        ("cmd_set", toString c.figures.stores), ("get_hits", toString c.figures.hits),
        ("get_misses", toString c.figures.misses)] :=
  rfl

/-! ## Functions of a cache -/

section

variable (now : Nat) (k : Key) (c : Cache)

theorem figures_touch : (c.touch now k).figures = c.figures := by
  rw [touch_eq]
  rfl

theorem figures_touch_counted :
    ({ c with stores := c.stores + 1 }.touch now k).figures =
      { c.figures with stores := c.figures.stores + 1 } :=
  figures_touch now k { c with stores := c.stores + 1 }

theorem figures_fetch (withToken : Bool) :
    (c.fetch now withToken k).2.figures =
      { c.figures with
        hits := c.figures.hits + (c.live? now k).isSome.toNat
        misses := c.figures.misses + (c.live? now k).isNone.toNat } := by
  rw [fetch, ← getElem?_touch_self, ← figures_touch now k c]
  generalize c.touch now k = t
  cases t.items[k]? <;> rfl

/-- Each key that is read counts, also if it is read again. -/
theorem figures_fetchAll (withToken : Bool) (found : KeyMap Item) (keys : List Key) :
    (c.fetchAll now withToken found keys).2.figures =
      { c.figures with
        hits := c.figures.hits + keys.countP fun k => (c.live? now k).isSome
        misses := c.figures.misses + keys.countP fun k => (c.live? now k).isNone } := by
  induction keys generalizing found c with
  | nil => rfl
  | cons k keys ih =>
    rw [fetchAll_cons, ih, figures_fetch]
    simp only [live?_fetch, List.countP_cons]
    cases c.live? now k <;> simp <;> omega

theorem figures_store (mode : StoreMode) (data : Bytes) (ttl flags : UInt32) :
    (c.store now mode k data ttl flags).2.figures =
      { c.figures with stores := c.figures.stores + 1 } := by
  rw [← figures_touch_counted now k c]
  unfold store
  generalize { c with stores := c.stores + 1 }.touch now k = t
  dsimp only
  cases mode <;> cases t.items[k]? <;> rfl

theorem figures_compareAndSet (data : Bytes) (token : Token) (ttl flags : UInt32) :
    (c.compareAndSet now k data token ttl flags).2.figures =
      { c.figures with stores := c.figures.stores + 1 } := by
  rw [← figures_touch_counted now k c, compareAndSet]
  generalize { c with stores := c.stores + 1 }.touch now k = t
  split
  · rfl
  · split <;> rfl

theorem figures_count (change : UInt64 → UInt64) :
    (c.count now change k).2.figures = c.figures := by
  rw [← figures_touch now k c, count]
  generalize c.touch now k = t
  split
  · rfl
  · split <;> rfl

theorem figures_delete : (c.delete now k).2.figures = c.figures := by
  rw [← figures_touch now k c, delete]
  generalize c.touch now k = t
  split <;> rfl

end

/-! ## Commands -/

/-- **What a command counts.** -/
theorem figures_apply (now : Nat) (command : Command) (c : Cache) :
    (c.apply now command).2.figures =
      { c.figures with
        hits := c.figures.hits + command.reads.countP fun k => (c.live? now k).isSome
        misses := c.figures.misses + command.reads.countP fun k => (c.live? now k).isNone
        stores := c.figures.stores + command.stores.toNat } := by
  cases command with
  | get k | gets k =>
    refine (figures_fetch now k c _).trans ?_
    simp only [Command.reads, Command.stores, List.countP_singleton]
    cases c.live? now k <;> rfl
  | getMulti keys => exact figures_fetchAll now c false ∅ keys
  | getsMulti keys => exact figures_fetchAll now c true ∅ keys
  | store mode k data ttl flags => exact figures_store now k c mode data ttl flags
  | cas k data token ttl flags => exact figures_compareAndSet now k c data token ttl flags
  | incr k amount | decr k amount => exact figures_count now k c _
  | delete k => exact figures_delete now k c
  | flushAll | stats | version => rfl

theorem version_apply (now : Nat) (command : Command) (c : Cache) :
    (c.apply now command).2.version = c.version :=
  congrArg Figures.version (figures_apply now command c)

end Cache

end CacheClient
