import CacheClient.Proofs.Cache.Frame
import CacheClient.Proofs.Server.History

/-!
# What is absent stays absent

A key is **absent** (`Absent`) if it has no live item. It does not matter why: it may never have
been stored, or been deleted or flushed, or its item may be past its deadline, whether the item is
still among those of the cache or not. Only two kinds of stores bring an item into existence
(`Command.creates`): in any case, or where there is none. Every other command needs a live item and
says that it has found none (`Exchange.FindsNothing`), and then it writes none either.

Time only makes this worse: what is past its deadline stays past it.

Main result: `absent_until_created`.
-/

namespace CacheClient

/-- The command stores an item under a key even if there is none. -/
def Command.creates (k : Key) : Command → Bool
  | .store .set a .. | .store .add a .. => a = k
  | _ => false

namespace Exchange

/-- If the exchange is about a key, it has found no item there. -/
def FindsNothing (k : Key) : Exchange → Prop
  | ⟨.get a, response⟩ | ⟨.gets a, response⟩ => a = k → response = .item none
  | ⟨.getMulti keys, response⟩ | ⟨.getsMulti keys, response⟩ =>
    k ∈ keys → ∃ found, response = .items found ∧ found[k]? = none
  | ⟨.store _ a .., response⟩ => a = k → response = .store .notStored
  | ⟨.cas a .., response⟩ => a = k → response = .store .notFound
  | ⟨.incr a _, response⟩ | ⟨.decr a _, response⟩ => a = k → response = .counter none
  | ⟨.delete a, response⟩ => a = k → response = .deleted false
  | ⟨.flushAll, _⟩ | ⟨.stats, _⟩ | ⟨.version, _⟩ => True

theorem FindsNothing.written?_ne {k : Key} {x : Exchange} (h : x.FindsNothing k) :
    x.written? ≠ some k := by
  intro hw
  unfold written? at hw
  split at hw <;> simp_all [FindsNothing]

end Exchange

namespace Cache

variable {now : Nat} {k : Key} {c : Cache}

/-- **Commands that do not create an item find none where there is none.** -/
theorem findsNothing_apply {x : Exchange} (hresponse : x.response = (c.apply now x.command).1)
    (habsent : c.live? now k = none) (hcreates : x.command.creates k = false) :
    x.FindsNothing k := by
  obtain ⟨command, response⟩ := x
  dsimp only at hresponse hcreates
  subst hresponse
  have hfound (withToken : Bool) (keys : List Key) :
      (c.fetchAll now withToken ∅ keys).1[k]? = none := by
    rw [getElem?_fetchAll, habsent]
    simp
  cases command with
  | get a | gets a =>
    rintro rfl
    simp only [apply, fetch_fst, habsent, Option.map_none]
  | getMulti keys => exact fun _ => ⟨_, rfl, hfound false keys⟩
  | getsMulti keys => exact fun _ => ⟨_, rfl, hfound true keys⟩
  | store mode a data ttl flags =>
    rintro rfl
    have hadmits : mode.admits false = false := by
      cases mode <;> simp_all [Command.creates, StoreMode.admits]
    simp only [apply, store_fst, habsent, Option.isSome_none, hadmits, Bool.false_eq_true, if_false]
  | cas a data token ttl flags =>
    rintro rfl
    simp only [apply, compareAndSet_fst, habsent, Option.elim_none]
  | incr a amount | decr a amount =>
    rintro rfl
    simp only [apply, count_fst, habsent, Option.elim_none]
  | delete a =>
    rintro rfl
    simp only [apply, delete_fst, habsent, Option.isSome_none]
  | flushAll | stats | version => trivial

end Cache

namespace Server

/-- A key has no live item. -/
def Absent (k : Key) (s : Server) : Prop := s.cache.live? s.now k = none

variable {k : Key} {s s' : Server} {x? : Option Exchange} {e : Event} {events : List Event}

theorem Absent.of_items_eq (h : s.Absent k) (hle : s.now ≤ s'.now)
    (hitems : s'.cache.items[k]? = s.cache.items[k]?) : s'.Absent k := by
  rw [Absent, Cache.live?, Option.filter_eq_none_iff] at h ⊢
  intro i hi
  rw [hitems] at hi
  have hexpired : i.isExpired s.now = true := by simpa using h i hi
  simp [Cache.Entry.isExpired_mono hle hexpired]

theorem absent_of_item_eq_none (h : s.cache.items[k]? = none) : s.Absent k := by
  rw [Absent, Cache.live?, h]
  rfl

namespace Moves

theorem findsNothing (h : Moves s x? s') (habsent : s.Absent k) {x : Exchange}
    (hx : x? = some x) (hcreates : x.command.creates k = false) : x.FindsNothing k := by
  obtain ⟨connections, hresponse, -⟩ := h.carried hx
  exact Cache.findsNothing_apply hresponse habsent hcreates

theorem absent (h : Moves s x? s') (habsent : s.Absent k)
    (hcreates : ∀ x, x? = some x → x.command.creates k = false) : s'.Absent k := by
  by_cases hremoved : ∃ x, x? = some x ∧ x.removes k = true
  · obtain ⟨x, hx, hremoves⟩ := hremoved
    exact absent_of_item_eq_none ((h.effect hx).removed hremoves)
  · have hd : ∀ x, x? = some x → ¬x.Disturbs k := by
      rintro x hx (hw | hremoves)
      · exact (h.findsNothing habsent hx (hcreates x hx)).written?_ne hw
      · exact hremoved ⟨x, hx, hremoves⟩
    rcases h.item_of_not_disturbed hd with hitem | hitem
    · exact habsent.of_items_eq h.now_le hitem
    · exact absent_of_item_eq_none (hitem.trans habsent)

end Moves

/-- **What is absent stays absent until it is created.** Start in any state in which a key has no
live item, whatever the reason. As long as no store on the key is carried out that is unconditional
or wants no item, the key has no live item: every read misses it, replacing, appending and
prepending store nothing, a conditional store finds nothing under any token, counters give no
number, and nothing is deleted. Other keys, time, faults and sessions make no difference. -/
theorem absent_until_created (habsent : s.Absent k)
    (hcreates : ∀ x ∈ history events s, x.command.creates k = false) :
    (run events s).Absent k ∧ ∀ x ∈ history events s, x.FindsNothing k := by
  induction events generalizing s with
  | nil => exact ⟨habsent, fun x hx => by cases hx⟩
  | cons e events ih =>
    have hmoves := moves_step e s
    simp only [history, List.mem_append, Option.mem_toList] at hcreates ⊢
    have hnext : (step e s).2.Absent k := hmoves.absent habsent fun x hx => hcreates x (.inl hx)
    obtain ⟨hlast, hlater⟩ := ih hnext fun x hx => hcreates x (.inr hx)
    refine ⟨hlast, ?_⟩
    rintro x (hx | hx)
    · exact hmoves.findsNothing habsent hx (hcreates x (.inl hx))
    · exact hlater x hx

/-- An item whose second is over is still among the items, and counts as absent: one can neither
count with it nor join bytes to it, and another key or a new session do not help. -/
theorem absent_until_created_expired :
    let k : Key := ⟨[107], List.cons_ne_nil _ _, List.forall_mem_singleton.2 rfl⟩
    let other : Key := ⟨[108], List.cons_ne_nil _ _, List.forall_mem_singleton.2 rfl⟩
    let before : List Event :=
      [.openSession "", .connect 0, .execute 0 (.store .set k [49] 1 0), .control (.advance 1000)]
    let events : List Event :=
      [.execute 0 (.incr k 1), .control .killConnections, .execute 0 (.store .set k [50] 0 0),
        .connect 0, .execute 0 (.store .set other [51] 0 0), .execute 0 (.store .append k [52] 0 0),
        .execute 0 (.cas k [53] 1 0 0), .execute 0 (.getsMulti [other, k])]
    let s := run before (withVersion "1")
    s.cache.items[k]?.isSome = true ∧ s.Absent k ∧ (history events s).length = 5 ∧
      (∀ x ∈ history events s, x.command.creates k = false) ∧ (run events s).Absent k ∧
      ∀ x ∈ history events s, x.FindsNothing k := by
  intro k other before events s
  have habsent : s.Absent k := by
    show s.cache.live? s.now k = none
    decide +kernel
  have hcreates : ∀ x ∈ history events s, x.command.creates k = false := by decide +kernel
  exact ⟨by decide +kernel, habsent, by decide +kernel, hcreates,
    absent_until_created habsent hcreates⟩

end Server

end CacheClient
