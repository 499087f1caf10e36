import CacheClient.Proofs.Cache

/-!
# The count of connections

A cache counts the connections to its server, and shows the count in its statistics. Commands
neither read it otherwise nor change it (`apply_withConnections`).
-/

namespace CacheClient

/-- The name under which statistics show the count of connections. -/
def connectionsRow : String := "total_connections"

/-- A table of statistics without the count of connections. -/
def withoutConnections (table : List (String × String)) : List (String × String) :=
  table.filter fun row => row.1 ≠ connectionsRow

/-- Two responses are the same up to the count of connections. -/
inductive Response.Matches : Response → Response → Prop
  | same (r : Response) : Matches r r
  | stats {table table' : List (String × String)}
      (h : withoutConnections table = withoutConnections table') :
      Matches (.stats table) (.stats table')

/-- Two responses that match the same one match each other. -/
theorem Response.Matches.join {r r' common : Response} (h : common.Matches r)
    (h' : common.Matches r') : r.Matches r' := by
  cases h with
  | same => exact h'
  | stats h =>
    cases h' with
    | same => exact .stats h.symm
    | stats h' => exact .stats (h.symm.trans h')

namespace Cache

/-- The cache with another count of connections. -/
def withConnections (connections : Nat) (c : Cache) : Cache := { c with connections }

variable (n now : Nat) (c : Cache)

theorem items_withConnections : (c.withConnections n).items = c.items := rfl

theorem touch_withConnections (k : Key) :
    (c.withConnections n).touch now k = (c.touch now k).withConnections n := by
  rw [touch, touch, items_withConnections]
  split
  · split <;> rfl
  · rfl

theorem fetch_withConnections (withToken : Bool) (k : Key) :
    (c.withConnections n).fetch now withToken k =
      ((c.fetch now withToken k).1, (c.fetch now withToken k).2.withConnections n) := by
  rw [fetch, fetch, touch_withConnections]
  generalize c.touch now k = t
  rw [items_withConnections]
  cases t.items[k]? <;> rfl

theorem fetchAll_withConnections (withToken : Bool) (found : KeyMap Item) (keys : List Key) :
    (c.withConnections n).fetchAll now withToken found keys =
      ((c.fetchAll now withToken found keys).1,
        (c.fetchAll now withToken found keys).2.withConnections n) := by
  induction keys generalizing found c with
  | nil => rfl
  | cons k keys ih => rw [fetchAll_cons, fetchAll_cons, fetch_withConnections, ih]

theorem store_withConnections (mode : StoreMode) (k : Key) (data : Bytes) (ttl flags : UInt32) :
    (c.withConnections n).store now mode k data ttl flags =
      ((c.store now mode k data ttl flags).1,
        (c.store now mode k data ttl flags).2.withConnections n) := by
  have htouch : { c.withConnections n with stores := (c.withConnections n).stores + 1 }.touch now k
      = ({ c with stores := c.stores + 1 }.touch now k).withConnections n :=
    touch_withConnections n now { c with stores := c.stores + 1 } k
  unfold store
  rw [htouch]
  generalize { c with stores := c.stores + 1 }.touch now k = t
  dsimp only
  rw [items_withConnections]
  cases mode <;> cases t.items[k]? <;> rfl

theorem compareAndSet_withConnections (k : Key) (data : Bytes) (token : Token)
    (ttl flags : UInt32) :
    (c.withConnections n).compareAndSet now k data token ttl flags =
      ((c.compareAndSet now k data token ttl flags).1,
        (c.compareAndSet now k data token ttl flags).2.withConnections n) := by
  have htouch : { c.withConnections n with stores := (c.withConnections n).stores + 1 }.touch now k
      = ({ c with stores := c.stores + 1 }.touch now k).withConnections n :=
    touch_withConnections n now { c with stores := c.stores + 1 } k
  rw [compareAndSet, compareAndSet, htouch]
  generalize { c with stores := c.stores + 1 }.touch now k = t
  rw [items_withConnections]
  cases t.items[k]? with
  | none => rfl
  | some i =>
    dsimp only
    split <;> rfl

theorem count_withConnections (change : UInt64 → UInt64) (k : Key) :
    (c.withConnections n).count now change k =
      ((c.count now change k).1, (c.count now change k).2.withConnections n) := by
  rw [count, count, touch_withConnections]
  generalize c.touch now k = t
  rw [items_withConnections]
  cases t.items[k]? with
  | none => rfl
  | some i =>
    dsimp only
    split <;> rfl

theorem delete_withConnections (k : Key) :
    (c.withConnections n).delete now k =
      ((c.delete now k).1, (c.delete now k).2.withConnections n) := by
  rw [delete, delete, touch_withConnections]
  generalize c.touch now k = t
  rw [items_withConnections]
  cases t.items[k]? <;> rfl

/-- **Commands do not care for the count of connections**, except that the statistics show it. -/
theorem apply_withConnections (command : Command) :
    ((c.withConnections n).apply now command).1.Matches (c.apply now command).1 ∧
      ((c.withConnections n).apply now command).2 = (c.apply now command).2.withConnections n := by
  cases command with
  | get k | gets k =>
    simp only [apply, fetch_withConnections]
    exact ⟨.same _, trivial⟩
  | getMulti keys | getsMulti keys =>
    simp only [apply, fetchAll_withConnections]
    exact ⟨.same _, trivial⟩
  | store mode k data ttl flags =>
    simp only [apply, store_withConnections]
    exact ⟨.same _, trivial⟩
  | cas k data token ttl flags =>
    simp only [apply, compareAndSet_withConnections]
    exact ⟨.same _, trivial⟩
  | incr k amount | decr k amount =>
    simp only [apply, count_withConnections]
    exact ⟨.same _, trivial⟩
  | delete k =>
    simp only [apply, delete_withConnections]
    exact ⟨.same _, trivial⟩
  | flushAll => exact ⟨.same _, rfl⟩
  | stats =>
    refine ⟨.stats ?_, rfl⟩
    simp [stats, withConnections, withoutConnections, connectionsRow]
  | version => exact ⟨.same _, rfl⟩

/-- Commands do not count as connections. -/
theorem connections_apply (command : Command) :
    (c.apply now command).2.connections = c.connections := by
  have h : (c.apply now command).2 = (c.apply now command).2.withConnections c.connections :=
    (apply_withConnections c.connections now c command).2
  rw [h]
  rfl

end Cache

end CacheClient
