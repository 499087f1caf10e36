import CacheClient.Proofs.Cache
import Mathlib.Logic.Basic

/-!
# Caches that differ in their tokens

Two caches that served different commands before have given out different tokens. For a reader who
remembers tokens this need not matter. The caches **mirror** each other for some keys (`Mirrors`) if
they hold the same bytes, flags and deadlines under these keys, and each token that is remembered
with the one is current there exactly if the token remembered with the other is current
(`Twin.current`).

A command on these keys, with the tokens remembered for each side, then has the same response on
both caches, up to the tokens that are shown, and leaves caches that mirror each other. The reason
is that tokens are only ever compared with remembered ones. An item that is written gets a token on
both sides that nobody remembers.

Main result: `mirrors_apply`.
-/

namespace CacheClient

/-! ## Responses without tokens -/

/-- An item without its token. -/
def Item.blank (i : Item) : Item := { i with token := none }

/-- A response without the tokens of its items. -/
def Response.blank : Response → Response
  | .item item? => .item (item?.map Item.blank)
  | .items found => .items (found.map fun _ i => i.blank)
  | r => r

namespace Cache

/-! ## One key -/

/-- An item without its token. -/
def Entry.content (i : Entry) : Bytes × UInt32 × Option Nat := (i.data, i.flags, i.deadline)

/-- What two caches hold under a key, `x` and `x'`, and the tokens that are remembered for it, `w`
and `w'`. No token is greater than the last that the cache has given out. -/
structure Twin (last last' : Token) (x x' : Option Entry) (w w' : Option Token) : Prop where
  content : x.map Entry.content = x'.map Entry.content
  known : w.isSome = w'.isSome
  current : ∀ t t', w = some t → w' = some t' →
    (x.map Entry.token = some t ↔ x'.map Entry.token = some t')
  item_le : ∀ t, x.map Entry.token = some t → t ≤ last
  item_le' : ∀ t, x'.map Entry.token = some t → t ≤ last'
  known_le : ∀ t, w = some t → t ≤ last
  known_le' : ∀ t, w' = some t → t ≤ last'

/-- If there is another token to be given out, there is one for a cache that has given out fewer. -/
theorem next_le {last last' : Token} (hle : last ≤ last + 1) (h : last' ≤ last) :
    last' ≤ last' + 1 ∧ last' + 1 ≤ last + 1 := by
  have hlt := lt_next hle (UInt64.le_refl last)
  rw [UInt64.lt_iff_toNat_lt, UInt64.toNat_add, UInt64.toNat_one] at hlt
  rw [UInt64.le_iff_toNat_le] at h
  rw [UInt64.le_iff_toNat_le, UInt64.le_iff_toNat_le, UInt64.toNat_add, UInt64.toNat_add,
    UInt64.toNat_one]
  omega

namespace Twin

variable {last last' n n' : Token} {x x' : Option Entry} {w w' : Option Token}

theorem cases (h : Twin last last' x x' w w') :
    x = none ∧ x' = none ∨
      ∃ i i', x = some i ∧ x' = some i' ∧ i.content = i'.content := by
  have hcontent := h.content
  cases x with
  | none =>
    cases x' with
    | none => exact .inl ⟨rfl, rfl⟩
    | some i' => cases hcontent
  | some i =>
    cases x' with
    | none => cases hcontent
    | some i' => exact .inr ⟨i, i', rfl, rfl, Option.some.inj hcontent⟩

theorem later (h : Twin last last' x x' w w') (hle : last ≤ n) (hle' : last' ≤ n') :
    Twin n n' x x' w w' where
  content := h.content
  known := h.known
  current := h.current
  item_le t ht := UInt64.le_trans (h.item_le t ht) hle
  item_le' t ht := UInt64.le_trans (h.item_le' t ht) hle'
  known_le t ht := UInt64.le_trans (h.known_le t ht) hle
  known_le' t ht := UInt64.le_trans (h.known_le' t ht) hle'

theorem gone (h : Twin last last' x x' w w') : Twin last last' none none w w' :=
  { h with content := rfl, current := by simp, item_le := by simp, item_le' := by simp }

/-- A new item has a token that nobody remembers. -/
theorem written (h : Twin last last' x x' w w') (hle : last ≤ last + 1)
    (hle' : last' ≤ last' + 1) {i i' : Entry} (hi : i.token = last + 1)
    (hi' : i'.token = last' + 1) (hcontent : i.content = i'.content) :
    Twin (last + 1) (last' + 1) (some i) (some i') w w' := by
  have hlater := h.later hle hle'
  refine { hlater with
    content := congrArg some hcontent
    current := ?_
    item_le := ?_
    item_le' := ?_ }
  · intro t t' ht ht'
    have hne : i.token ≠ t := by
      rw [hi]
      exact (UInt64.ne_of_lt (lt_next hle (h.known_le t ht))).symm
    have hne' : i'.token ≠ t' := by
      rw [hi']
      exact (UInt64.ne_of_lt (lt_next hle' (h.known_le' t' ht'))).symm
    simp [hne, hne']
  · rintro t ⟨⟩
    exact UInt64.le_of_eq hi
  · rintro t ⟨⟩
    exact UInt64.le_of_eq hi'

/-- A token that is read on both sides is current on both. -/
theorem remember (h : Twin last last' x x' w w') :
    Twin last last' x x' ((x.map Entry.token).or w) ((x'.map Entry.token).or w') := by
  rcases h.cases with ⟨rfl, rfl⟩ | ⟨i, i', rfl, rfl, -⟩
  · exact h
  · refine { h with known := rfl, current := ?_, known_le := h.item_le, known_le' := h.item_le' }
    rintro t t' ⟨⟩ ⟨⟩
    exact ⟨fun _ => rfl, fun _ => rfl⟩

theorem forget (h : Twin last last' x x' w w') : Twin last last' x x' none none :=
  { h with known := rfl, current := by simp, known_le := by simp, known_le' := by simp }

end Twin

/-! ## Some keys -/

/-- Two caches look the same under some keys to someone who remembers the tokens `w` with the first
and `w'` with the second. The second has not given out more tokens. -/
structure Mirrors (own : Key → Prop) (w w' : Key → Option Token) (c c' : Cache) : Prop where
  lastToken_le : c'.lastToken ≤ c.lastToken
  twin : ∀ k, own k → Twin c.lastToken c'.lastToken c.items[k]? c'.items[k]? (w k) (w' k)

namespace Mirrors

variable {own : Key → Prop} {w w' : Key → Option Token} {c c' : Cache} {k : Key} {now : Nat}

theorem erase (h : Mirrors own w w' c c') (k : Key) :
    Mirrors own w w' { c with items := c.items.erase k }
      { c' with items := c'.items.erase k } where
  lastToken_le := h.lastToken_le
  twin a ha := by
    show Twin c.lastToken c'.lastToken (c.items.erase k)[a]? (c'.items.erase k)[a]? (w a) (w' a)
    rw [KeyMap.getElem?_erase, KeyMap.getElem?_erase]
    split
    · exact (h.twin a ha).gone
    · exact h.twin a ha

/-- Both caches give out a token for nothing. -/
theorem skip (h : Mirrors own w w' c c') (hle : c.lastToken ≤ c.lastToken + 1) :
    Mirrors own w w' { c with lastToken := c.lastToken + 1 }
      { c' with lastToken := c'.lastToken + 1 } where
  lastToken_le := (next_le hle h.lastToken_le).2
  twin a ha := (h.twin a ha).later hle (next_le hle h.lastToken_le).1

/-- Both caches write an item. -/
theorem write (h : Mirrors own w w' c c') (hle : c.lastToken ≤ c.lastToken + 1) (k : Key)
    {i i' : Entry} (hi : i.token = c.lastToken + 1) (hi' : i'.token = c'.lastToken + 1)
    (hcontent : i.content = i'.content) :
    Mirrors own w w' { c with items := c.items.insert k i, lastToken := c.lastToken + 1 }
      { c' with items := c'.items.insert k i', lastToken := c'.lastToken + 1 } where
  lastToken_le := (next_le hle h.lastToken_le).2
  twin a ha := by
    have hle' := (next_le hle h.lastToken_le).1
    show Twin (c.lastToken + 1) (c'.lastToken + 1) (c.items.insert k i)[a]?
      (c'.items.insert k i')[a]? (w a) (w' a)
    rw [KeyMap.getElem?_insert, KeyMap.getElem?_insert]
    split
    · exact (h.twin a ha).written hle hle' hi hi' hcontent
    · exact (h.twin a ha).later hle hle'

/-- Both caches touch a key. An item is past its deadline in both or in neither. -/
theorem touch (h : Mirrors own w w' c c') (hk : own k) (now : Nat) :
    Mirrors own w w' (c.touch now k) (c'.touch now k) := by
  rw [Cache.touch, Cache.touch]
  rcases (h.twin k hk).cases with ⟨hx, hx'⟩ | ⟨i, i', hx, hx', hcontent⟩
  · rw [hx, hx']
    exact h
  · have hexpired : i.isExpired now = i'.isExpired now := by
      rw [Entry.isExpired, Entry.isExpired, show i.deadline = i'.deadline from
        congrArg (fun content => content.2.2) hcontent]
    rw [hx, hx']
    dsimp only
    rw [hexpired]
    split
    · exact h.erase k
    · exact h

end Mirrors

/-! ## Commands -/

section

variable {own : Key → Prop} {w w' : Key → Option Token} {c c' : Cache} {k : Key}

/-- Results that are the same, with caches that mirror each other. -/
def Agree {α : Type} (own : Key → Prop) (w w' : Key → Option Token) (x x' : α × Cache) : Prop :=
  x.1 = x'.1 ∧ Mirrors own w w' x.2 x'.2

theorem blank_shown {i i' : Entry} (h : i.content = i'.content) (withToken : Bool) :
    (i.shown withToken).blank = (i'.shown withToken).blank := by
  obtain ⟨data, flags, token, deadline⟩ := i
  obtain ⟨data', flags', token', deadline'⟩ := i'
  cases h
  rfl

theorem mirrors_fetch (h : Mirrors own w w' c c') (hk : own k) (now : Nat) (withToken : Bool) :
    (c.fetch now withToken k).1.map Item.blank = (c'.fetch now withToken k).1.map Item.blank ∧
      Mirrors own w w' (c.fetch now withToken k).2 (c'.fetch now withToken k).2 := by
  have ht := h.touch hk now
  rw [fetch, fetch]
  generalize c.touch now k = t at ht
  generalize c'.touch now k = t' at ht
  rcases (ht.twin k hk).cases with ⟨hx, hx'⟩ | ⟨i, i', hx, hx', hcontent⟩
  · rw [hx, hx']
    exact ⟨rfl, ht.lastToken_le, ht.twin⟩
  · rw [hx, hx']
    exact ⟨congrArg some (blank_shown hcontent withToken), ht.lastToken_le, ht.twin⟩

theorem mirrors_fetchAll (h : Mirrors own w w' c c') {keys : List Key} (hkeys : ∀ k ∈ keys, own k)
    (now : Nat) (withToken : Bool) (found found' : KeyMap Item) :
    Mirrors own w w' (c.fetchAll now withToken found keys).2
      (c'.fetchAll now withToken found' keys).2 := by
  induction keys generalizing found found' c c' with
  | nil => exact h
  | cons k keys ih =>
    rw [fetchAll_cons, fetchAll_cons]
    have hk : own k := hkeys k (List.mem_cons_self ..)
    exact ih (mirrors_fetch h hk now withToken).2
      (fun a ha => hkeys a (List.mem_cons_of_mem _ ha)) _ _

/-- Live items have the same bytes and flags. -/
theorem Mirrors.live?_blank (h : Mirrors own w w' c c') (hk : own k) (now : Nat)
    (withToken : Bool) :
    (c.live? now k).map (fun i => (i.shown withToken).blank) =
      (c'.live? now k).map fun i => (i.shown withToken).blank := by
  have hfetch := (mirrors_fetch h hk now withToken).1
  rwa [fetch_fst, fetch_fst, Option.map_map, Option.map_map] at hfetch

/-- Reads of several items find the same bytes and flags. -/
theorem blank_fetchAll (h : Mirrors own w w' c c') {keys : List Key} (hkeys : ∀ k ∈ keys, own k)
    (now : Nat) (withToken : Bool) :
    ((c.fetchAll now withToken ∅ keys).1.map fun _ i => i.blank) =
      (c'.fetchAll now withToken ∅ keys).1.map fun _ i => i.blank := by
  apply Std.ExtTreeMap.ext_getElem?
  intro k
  rw [Std.ExtTreeMap.getElem?_map, Std.ExtTreeMap.getElem?_map, getElem?_fetchAll,
    getElem?_fetchAll]
  split
  · next hk =>
    have hlive := h.live?_blank (hkeys k hk) now withToken
    simpa [Option.map_map, Function.comp_def] using hlive
  · rfl

/-- Both caches count a store and touch its key. -/
theorem Mirrors.counted (h : Mirrors own w w' c c') (hk : own k) (now : Nat) :
    Mirrors own w w' ({ c with stores := c.stores + 1 }.touch now k)
      ({ c' with stores := c'.stores + 1 }.touch now k) := by
  have hcounted : Mirrors own w w' { c with stores := c.stores + 1 }
      { c' with stores := c'.stores + 1 } := ⟨h.lastToken_le, h.twin⟩
  exact hcounted.touch hk now

theorem mirrors_put (h : Mirrors own w w' c c') (now : Nat) (k : Key) (data : Bytes)
    (ttl flags : UInt32) (hle : c.lastToken ≤ c.lastToken + 1) :
    Mirrors own w w' (c.put now k data ttl flags) (c'.put now k data ttl flags) :=
  h.write hle k rfl rfl rfl

theorem mirrors_update (h : Mirrors own w w' c c') {i i' : Entry}
    (hcontent : i.content = i'.content) (k : Key) (data : Bytes)
    (hle : c.lastToken ≤ c.lastToken + 1) :
    Mirrors own w w' (c.update k data i) (c'.update k data i') := by
  have hflags : i.flags = i'.flags := congrArg (fun content => content.2.1) hcontent
  have hdeadline : i.deadline = i'.deadline := congrArg (fun content => content.2.2) hcontent
  refine h.write hle k rfl rfl ?_
  rw [Entry.content, Entry.content, hflags, hdeadline]

theorem mirrors_store (h : Mirrors own w w' c c') (hk : own k) (now : Nat) (mode : StoreMode)
    (data : Bytes) (ttl flags : UInt32)
    (hle : c.lastToken ≤ (c.store now mode k data ttl flags).2.lastToken) :
    Agree own w w' (c.store now mode k data ttl flags) (c'.store now mode k data ttl flags) := by
  have ht := h.counted hk now
  have hlast := (touched_counted now k c).lastToken
  unfold store at hle ⊢
  generalize { c with stores := c.stores + 1 }.touch now k = t at ht hlast hle
  generalize { c' with stores := c'.stores + 1 }.touch now k = t' at ht
  rw [← hlast] at hle
  dsimp only at hle ⊢
  have hput := mirrors_put ht now k data ttl flags
  rcases (ht.twin k hk).cases with ⟨hx, hx'⟩ | ⟨i, i', hx, hx', hcontent⟩
  · rw [hx] at hle ⊢
    rw [hx']
    cases mode with
    | set | add => exact ⟨rfl, hput hle⟩
    | replace => exact ⟨rfl, ht⟩
    | append | prepend => exact ⟨rfl, ht.skip hle⟩
  · have hdata : i.data = i'.data := congrArg (fun content => content.1) hcontent
    rw [hx] at hle ⊢
    rw [hx']
    cases mode with
    | set | replace => exact ⟨rfl, hput hle⟩
    | add => exact ⟨rfl, ht⟩
    | append | prepend =>
      dsimp only
      rw [← hdata]
      exact ⟨rfl, mirrors_update ht hcontent k _ hle⟩

theorem mirrors_compareAndSet (h : Mirrors own w w' c c') (hk : own k) (now : Nat) (data : Bytes)
    {token token' : Token} (hw : w k = some token) (hw' : w' k = some token')
    (ttl flags : UInt32)
    (hle : c.lastToken ≤ (c.compareAndSet now k data token ttl flags).2.lastToken) :
    Agree own w w' (c.compareAndSet now k data token ttl flags)
      (c'.compareAndSet now k data token' ttl flags) := by
  have ht := h.counted hk now
  have hlast := (touched_counted now k c).lastToken
  rw [compareAndSet] at hle ⊢
  rw [compareAndSet]
  generalize { c with stores := c.stores + 1 }.touch now k = t at ht hlast hle
  generalize { c' with stores := c'.stores + 1 }.touch now k = t' at ht
  rw [← hlast] at hle
  rcases (ht.twin k hk).cases with ⟨hx, hx'⟩ | ⟨i, i', hx, hx', hcontent⟩
  · rw [hx, hx']
    exact ⟨rfl, ht⟩
  · -- the item has the one token exactly if it has the other on the other side
    have hcurrent := (ht.twin k hk).current token token' hw hw'
    simp only [hx, hx', Option.map_some, Option.some.injEq] at hcurrent
    rw [hx] at hle ⊢
    rw [hx']
    dsimp only at hle ⊢
    by_cases htoken : i.token = token
    · rw [if_pos htoken] at hle ⊢
      rw [if_pos (hcurrent.1 htoken)]
      exact ⟨rfl, mirrors_put ht now k data ttl flags hle⟩
    · rw [if_neg htoken, if_neg (fun h => htoken (hcurrent.2 h))]
      exact ⟨rfl, ht⟩

theorem mirrors_count (h : Mirrors own w w' c c') (hk : own k) (now : Nat)
    (change : UInt64 → UInt64) (hle : c.lastToken ≤ (c.count now change k).2.lastToken) :
    Agree own w w' (c.count now change k) (c'.count now change k) := by
  have ht := h.touch hk now
  have hlast := (touched_touch now k c).lastToken
  rw [count] at hle ⊢
  rw [count]
  generalize c.touch now k = t at ht hlast hle
  generalize c'.touch now k = t' at ht
  rw [← hlast] at hle
  rcases (ht.twin k hk).cases with ⟨hx, hx'⟩ | ⟨i, i', hx, hx', hcontent⟩
  · rw [hx, hx']
    exact ⟨rfl, ht⟩
  · have hdata : i.data = i'.data := congrArg (fun content => content.1) hcontent
    rw [hx] at hle ⊢
    rw [hx']
    dsimp only at hle ⊢
    rw [← hdata]
    cases hcounter : counter? i.data with
    | none => exact ⟨rfl, ht⟩
    | some n =>
      rw [hcounter] at hle
      exact ⟨rfl, mirrors_update ht hcontent k _ hle⟩

theorem mirrors_delete (h : Mirrors own w w' c c') (hk : own k) (now : Nat) :
    Agree own w w' (c.delete now k) (c'.delete now k) := by
  have ht := h.touch hk now
  rw [delete, delete]
  generalize c.touch now k = t at ht
  generalize c'.touch now k = t' at ht
  rcases (ht.twin k hk).cases with ⟨hx, hx'⟩ | ⟨i, i', hx, hx', hcontent⟩
  · rw [hx, hx']
    exact ⟨rfl, ht⟩
  · rw [hx, hx']
    exact ⟨rfl, ht.erase k⟩

theorem mirrors_clear (h : Mirrors own w w' c c') :
    Mirrors own w w' { c with items := ∅ } { c' with items := ∅ } where
  lastToken_le := h.lastToken_le
  twin k hk := by
    have hempty : (∅ : KeyMap Entry)[k]? = none := Std.ExtTreeMap.getElem?_empty
    show Twin c.lastToken c'.lastToken (∅ : KeyMap Entry)[k]? (∅ : KeyMap Entry)[k]? (w k) (w' k)
    rw [hempty]
    exact (h.twin k hk).gone

end

/-- The same command for two sides, each with its own token if it is a conditional store. -/
inductive Counterpart (w w' : Key → Option Token) : Command → Command → Prop
  | same {command : Command} (h : ∀ k data token ttl flags, command ≠ .cas k data token ttl flags) :
      Counterpart w w' command command
  | cas {k : Key} {token token' : Token} (hw : w k = some token) (hw' : w' k = some token')
      (data : Bytes) (ttl flags : UInt32) :
      Counterpart w w' (.cas k data token ttl flags) (.cas k data token' ttl flags)

/-- **Caches that mirror each other go on to do so.** A command on the keys in question has the same
response on both, up to tokens. -/
theorem mirrors_apply {own : Key → Prop} {w w' : Key → Option Token} {c c' : Cache}
    {command command' : Command} (h : Mirrors own w w' c c')
    (hcommand : Counterpart w w' command command') (hkeys : ∀ k ∈ command.keys, own k)
    (hstats : command ≠ .stats) (hversion : c.version = c'.version) (now : Nat)
    (hle : c.lastToken ≤ (c.apply now command).2.lastToken) :
    (c.apply now command).1.blank = (c'.apply now command').1.blank ∧
      Mirrors own w w' (c.apply now command).2 (c'.apply now command').2 := by
  cases hcommand with
  | cas hw hw' data ttl flags =>
    obtain ⟨hstatus, hmirrors⟩ := mirrors_compareAndSet h
      (hkeys _ (List.mem_singleton_self _)) now data hw hw' ttl flags hle
    exact ⟨congrArg Response.store hstatus, hmirrors⟩
  | same hcas =>
    cases command with
    | get k =>
      obtain ⟨hitem, hmirrors⟩ := mirrors_fetch h (hkeys k (List.mem_singleton_self k)) now false
      exact ⟨congrArg Response.item hitem, hmirrors⟩
    | gets k =>
      obtain ⟨hitem, hmirrors⟩ := mirrors_fetch h (hkeys k (List.mem_singleton_self k)) now true
      exact ⟨congrArg Response.item hitem, hmirrors⟩
    | getMulti keys =>
      exact ⟨congrArg Response.items (blank_fetchAll h hkeys now false),
        mirrors_fetchAll h hkeys now false ∅ ∅⟩
    | getsMulti keys =>
      exact ⟨congrArg Response.items (blank_fetchAll h hkeys now true),
        mirrors_fetchAll h hkeys now true ∅ ∅⟩
    | store mode k data ttl flags =>
      obtain ⟨hstatus, hmirrors⟩ :=
        mirrors_store h (hkeys k (List.mem_singleton_self k)) now mode data ttl flags hle
      exact ⟨congrArg Response.store hstatus, hmirrors⟩
    | cas k data token ttl flags => exact absurd rfl (hcas k data token ttl flags)
    | incr k amount | decr k amount =>
      obtain ⟨hresponse, hmirrors⟩ :=
        mirrors_count h (hkeys k (List.mem_singleton_self k)) now _ hle
      exact ⟨congrArg Response.blank hresponse, hmirrors⟩
    | delete k =>
      obtain ⟨hfound, hmirrors⟩ := mirrors_delete h (hkeys k (List.mem_singleton_self k)) now
      exact ⟨congrArg Response.deleted hfound, hmirrors⟩
    | flushAll => exact ⟨rfl, mirrors_clear h⟩
    | stats => exact absurd rfl hstats
    | version => exact ⟨congrArg Response.version hversion, h⟩

end Cache

end CacheClient
