import CacheClient.Proofs.Server.History
import Mathlib.Logic.Basic

/-!
# A token identifies one version of one item

Tokens are given out in ascending order, so as long as they last, an item that is written gets a
token that no item has ever had. Two facts about a cache carry everything else:

* its tokens **fit** (`Cache.TokensFit`): items have tokens that were given out, and no two items
  share one;
* a token is **retired** (`Cache.Retired`) when it was given out and no item has it. It stays so
  for good, which is why the token of a deleted or replaced item does not come back.

Writing or removing an item retires its token, so a conditional store with a token succeeds
exactly as long as nobody disturbed the item, and at most once.

Main result: `token_identifies_version`.
-/

namespace CacheClient

/-- A conditional store with a token was carried out. -/
def Exchange.spends (token : Token) : Exchange → Bool
  | ⟨.cas _ _ t .., .store .stored⟩ => t = token
  | _ => false

theorem Exchange.not_disturbs_of_mem_tokensFor {x : Exchange} {k a : Key} {token : Token}
    (h : (k, token) ∈ x.response.tokensFor x.command) : ¬x.Disturbs a := by
  obtain ⟨command, response⟩ := x
  cases command with
  | gets b => exact not_disturbs_gets a b response
  | getsMulti _ => simp [Disturbs, written?, removes]
  | _ => simp [Response.tokensFor] at h

/-! ## Tokens of a cache -/

/-- The tokens of a cache fit: they were given out, and each belongs to one item. -/
structure Cache.TokensFit (c : Cache) : Prop where
  pos : ∀ {k : Key} {i : Entry}, c.items[k]? = some i → 0 < i.token
  le_lastToken : ∀ {k : Key} {i : Entry}, c.items[k]? = some i → i.token ≤ c.lastToken
  distinct : ∀ {a b : Key} {i j : Entry},
    c.items[a]? = some i → c.items[b]? = some j → i.token = j.token → a = b

/-- A token was given out, and no item has it any more. -/
structure Cache.Retired (token : Token) (c : Cache) : Prop where
  le_lastToken : token ≤ c.lastToken
  absent : ∀ {k : Key} {i : Entry}, c.items[k]? = some i → i.token ≠ token

namespace Server

namespace Moves

variable {s s' : Server} {x? : Option Exchange} {x : Exchange} {k : Key} {i : Cache.Entry}
  {token : Token}

/-- While tokens last, the next one is greater than all before. -/
theorem lt_next (hle : s.cache.lastToken ≤ s'.cache.lastToken)
    (hnext : s'.cache.lastToken = s.cache.lastToken + 1) (h : token ≤ s.cache.lastToken) :
    token < s.cache.lastToken + 1 := by
  rw [hnext] at hle
  exact Cache.lt_next hle h

theorem ne_next (hle : s.cache.lastToken ≤ s'.cache.lastToken)
    (hnext : s'.cache.lastToken = s.cache.lastToken + 1) (h : token ≤ s.cache.lastToken) :
    token ≠ s.cache.lastToken + 1 :=
  UInt64.ne_of_lt (lt_next hle hnext h)

theorem toNat_lastToken (h : Moves s x? s')
    (hlast : s.cache.lastToken.toNat +
      (decide (s'.cache.lastToken ≠ s.cache.lastToken)).toNat < UInt64.size) :
    s'.cache.lastToken.toNat = s.cache.lastToken.toNat +
      (decide (s'.cache.lastToken ≠ s.cache.lastToken)).toNat := by
  rcases h.lastToken with hsame | hnext
  · rw [hsame]
    simp
  · have hone : (decide (s'.cache.lastToken ≠ s.cache.lastToken)).toNat = 1 := by simp [hnext]
    rw [hone] at hlast ⊢
    rw [hnext, UInt64.toNat_add, UInt64.toNat_one]
    exact Nat.mod_eq_of_lt hlast

/-! ## Tokens fit -/

theorem tokensFit (h : Moves s x? s') (hle : s.cache.lastToken ≤ s'.cache.lastToken)
    (hfit : s.cache.TokensFit) : s'.cache.TokensFit where
  pos {k i} hi := by
    rcases h.item_cases hi with hold | ⟨-, htoken, hnext⟩
    · exact hfit.pos hold
    · rw [htoken]
      exact lt_next hle hnext (UInt64.le_iff_toNat_le.2 (Nat.zero_le _))
  le_lastToken {k i} hi := by
    rcases h.item_cases hi with hold | ⟨-, htoken, hnext⟩
    · exact UInt64.le_trans (hfit.le_lastToken hold) hle
    · rw [htoken, hnext]
      exact UInt64.le_refl _
  distinct {a b i j} hi hj hij := by
    rcases h.item_cases hi with hiold | ⟨⟨x, hx, hxa⟩, hitoken, hnext⟩
    · rcases h.item_cases hj with hjold | ⟨-, hjtoken, hnext⟩
      · exact hfit.distinct hiold hjold hij
      · exact absurd (hij.trans hjtoken) (ne_next hle hnext (hfit.le_lastToken hiold))
    · rcases h.item_cases hj with hjold | ⟨⟨y, hy, hyb⟩, -, -⟩
      · exact absurd (hij.symm.trans hitoken) (ne_next hle hnext (hfit.le_lastToken hjold))
      · -- both were written, but an exchange writes one item only
        rw [hx] at hy
        cases hy
        rw [hxa] at hyb
        exact Option.some.inj hyb

/-! ## Retired tokens -/

theorem retired (h : Moves s x? s') (hle : s.cache.lastToken ≤ s'.cache.lastToken)
    (hretired : s.cache.Retired token) : s'.cache.Retired token where
  le_lastToken := UInt64.le_trans hretired.le_lastToken hle
  absent {k i} hi := by
    rcases h.item_cases hi with hold | ⟨-, htoken, hnext⟩
    · exact hretired.absent hold
    · rw [htoken]
      exact (ne_next hle hnext hretired.le_lastToken).symm

/-- An item either stays, or its token is retired. -/
theorem stays_or_retired (h : Moves s x? s') (hle : s.cache.lastToken ≤ s'.cache.lastToken)
    (hfit : s.cache.TokensFit) (hi : s.cache.items[k]? = some i) :
    s'.cache.items[k]? = some i ∨ s'.cache.Retired i.token := by
  by_cases hstays : s'.cache.items[k]? = some i
  · exact .inl hstays
  · refine .inr ⟨UInt64.le_trans (hfit.le_lastToken hi) hle, ?_⟩
    intro a j hj htoken
    rcases h.item_cases hj with hold | ⟨-, hjtoken, hnext⟩
    · obtain rfl := hfit.distinct hold hi htoken
      rw [hold] at hi
      cases hi
      exact hstays hj
    · exact ne_next hle hnext (hfit.le_lastToken hi) (htoken.symm.trans hjtoken)

/-- Who disturbs an item retires its token. -/
theorem retired_of_disturbs (h : Moves s x? s') (hle : s.cache.lastToken ≤ s'.cache.lastToken)
    (hfit : s.cache.TokensFit) (hi : s.cache.items[k]? = some i) (hx : x? = some x)
    (hd : x.Disturbs k) : s'.cache.Retired i.token := by
  rcases h.stays_or_retired hle hfit hi with hstays | hretired
  · rcases hd with hw | hr
    · obtain ⟨hnext, j, hj, htoken⟩ := (h.effect hx).written hw
      rw [hstays] at hj
      cases hj
      exact absurd (htoken.trans hnext) (ne_next hle hnext (hfit.le_lastToken hi))
    · rw [(h.effect hx).removed hr] at hstays
      cases hstays
  · exact hretired

/-! ## Reading and spending tokens -/

theorem item_of_read (h : Moves s x? s') (hx : x? = some x)
    (htoken : (k, token) ∈ x.response.tokensFor x.command) :
    ∃ i, s'.cache.items[k]? = some i ∧ i.token = token := by
  obtain ⟨connections, hresponse, -⟩ := h.carried hx
  have hd : ∀ y, x? = some y → ¬y.Disturbs k := by
    intro y hy
    rw [hx] at hy
    cases hy
    exact Exchange.not_disturbs_of_mem_tokensFor htoken
  rw [hresponse] at htoken
  obtain ⟨-, i, hlive, hi⟩ := Cache.live?_of_mem_tokensFor htoken
  have hlive : s.cache.live? s.now k = some i := hlive
  refine ⟨i, ?_, hi⟩
  rcases h.item_of_not_disturbed hd with hk | hk
  · rw [hk]
    exact (Cache.live?_eq_some_iff.1 hlive).1
  · rw [hk, hlive]

theorem answer_of_cas (h : Moves s x? s') {data : Bytes} {ttl flags : UInt32} {answer : Response}
    (hx : x? = some ⟨.cas k data token ttl flags, answer⟩) :
    answer = .store ((s.cache.live? s.now k).elim .notFound fun i =>
      if i.token = token then .stored else .exists) := by
  obtain ⟨connections, hresponse, -⟩ := h.carried hx
  have hanswer : answer = .store
      ({ s.cache with connections }.compareAndSet s.now k data token ttl flags).1 := hresponse
  rw [hanswer, Cache.compareAndSet_fst]
  rfl

theorem disturbs_of_spends (h : Moves s x? s') (hx : x? = some x)
    (hspends : x.spends token = true) :
    ∃ k i, s.cache.items[k]? = some i ∧ i.token = token ∧ x.Disturbs k := by
  obtain ⟨command, response⟩ := x
  unfold Exchange.spends at hspends
  split at hspends
  · next k data t ttl flags heq =>
    cases heq
    have hanswer := h.answer_of_cas hx
    cases hk : s.cache.live? s.now k with
    | none => simp [hk] at hanswer
    | some i =>
      by_cases hi : i.token = t
      · refine ⟨k, i, (Cache.live?_eq_some_iff.1 hk).1, ?_, .inl rfl⟩
        rw [hi]
        exact of_decide_eq_true hspends
      · simp [hk, hi] at hanswer
  · cases hspends

end Moves

/-! ## Counting tokens -/

/-- A step gives out a token. -/
def issues (e : Event) (s : Server) : Bool :=
  (step e s).2.cache.lastToken ≠ s.cache.lastToken

/-- The number of tokens that a run gives out. -/
def issued : List Event → Server → Nat
  | [], _ => 0
  | e :: events, s => (issues e s).toNat + issued events (step e s).2

/-- The token that a step assigns to the item it writes. -/
def assigned? (e : Event) (s : Server) : Option Token :=
  ((exchange? e s).bind Exchange.written?).bind fun k =>
    (step e s).2.cache.items[k]?.map fun i => i.token

/-- The tokens that a run assigns to items, in their order. -/
def assigned : List Event → Server → List Token
  | [], _ => []
  | e :: events, s => (assigned? e s).toList ++ assigned events (step e s).2

/-- The tokens do not run out during a run. -/
def TokensLast (events : List Event) (s : Server) : Prop :=
  s.cache.lastToken.toNat + issued events s < UInt64.size

variable {e : Event} {events more : List Event} {s : Server} {token : Token} {k : Key}
  {i : Cache.Entry} {x : Exchange}

theorem toNat_lastToken_step (hlast : TokensLast (e :: events) s) :
    (step e s).2.cache.lastToken.toNat = s.cache.lastToken.toNat + (issues e s).toNat := by
  rw [TokensLast, issued, issues] at hlast
  rw [issues]
  exact (moves_step e s).toNat_lastToken (by omega)

theorem lastToken_le_step (hlast : TokensLast (e :: events) s) :
    s.cache.lastToken ≤ (step e s).2.cache.lastToken := by
  rw [UInt64.le_iff_toNat_le, toNat_lastToken_step hlast]
  exact Nat.le_add_right ..

theorem TokensLast.tail (hlast : TokensLast (e :: events) s) :
    TokensLast events (step e s).2 := by
  rw [TokensLast, toNat_lastToken_step hlast, Nat.add_assoc]
  exact hlast

theorem issued_append (events more : List Event) (s : Server) :
    issued (events ++ more) s = issued events s + issued more (run events s) := by
  induction events generalizing s with
  | nil => simp [issued]
  | cons e events ih => rw [List.cons_append, issued, ih, issued, Nat.add_assoc, run_cons]

theorem toNat_lastToken_run (hlast : TokensLast events s) :
    (run events s).cache.lastToken.toNat = s.cache.lastToken.toNat + issued events s := by
  induction events generalizing s with
  | nil => rfl
  | cons e events ih =>
    rw [run_cons, ih hlast.tail, toNat_lastToken_step hlast, issued, Nat.add_assoc]

theorem TokensLast.left (hlast : TokensLast (events ++ more) s) : TokensLast events s := by
  rw [TokensLast, issued_append] at hlast
  rw [TokensLast]
  omega

theorem TokensLast.right (hlast : TokensLast (events ++ more) s) :
    TokensLast more (run events s) := by
  rw [TokensLast, toNat_lastToken_run hlast.left, Nat.add_assoc, ← issued_append]
  exact hlast

/-! ## Tokens along a run -/

theorem getElem?_items_withVersion (version : String) (k : Key) :
    (withVersion version).cache.items[k]? = none :=
  Std.ExtTreeMap.getElem?_empty

theorem tokensFit_withVersion (version : String) : (withVersion version).cache.TokensFit := by
  constructor
  · intro k i h
    rw [getElem?_items_withVersion] at h
    cases h
  · intro k i h
    rw [getElem?_items_withVersion] at h
    cases h
  · intro a b i j h
    rw [getElem?_items_withVersion] at h
    cases h

theorem tokensLast_withVersion {version : String}
    (h : issued events (withVersion version) < UInt64.size) :
    TokensLast events (withVersion version) := by
  show (0 : UInt64).toNat + issued events (withVersion version) < UInt64.size
  rw [UInt64.toNat_zero, Nat.zero_add]
  exact h

theorem toNat_lastToken_run_withVersion {version : String}
    (h : issued events (withVersion version) < UInt64.size) :
    (run events (withVersion version)).cache.lastToken.toNat =
      issued events (withVersion version) := by
  rw [toNat_lastToken_run (tokensLast_withVersion h)]
  show (0 : UInt64).toNat + issued events (withVersion version) = _
  rw [UInt64.toNat_zero, Nat.zero_add]

theorem tokensFit_step (hlast : TokensLast (e :: events) s) (h : s.cache.TokensFit) :
    (step e s).2.cache.TokensFit :=
  (moves_step e s).tokensFit (lastToken_le_step hlast) h

theorem tokensFit_run (hlast : TokensLast events s) (h : s.cache.TokensFit) :
    (run events s).cache.TokensFit := by
  induction events generalizing s with
  | nil => exact h
  | cons e events ih => exact ih hlast.tail (tokensFit_step hlast h)

theorem retired_run (hlast : TokensLast events s) (h : s.cache.Retired token) :
    (run events s).cache.Retired token := by
  induction events generalizing s with
  | nil => exact h
  | cons e events ih =>
    exact ih hlast.tail ((moves_step e s).retired (lastToken_le_step hlast) h)

theorem not_spent_of_retired (hlast : TokensLast events s) (h : s.cache.Retired token) :
    (history events s).countP (Exchange.spends token) = 0 := by
  induction events generalizing s with
  | nil => rfl
  | cons e events ih =>
    have hmoves := moves_step e s
    rw [history, List.countP_append,
      ih hlast.tail (hmoves.retired (lastToken_le_step hlast) h)]
    cases hx : exchange? e s with
    | none => rfl
    | some x =>
      have hspends : ¬x.spends token = true := by
        intro hspends
        obtain ⟨k, i, hi, htoken, -⟩ := hmoves.disturbs_of_spends hx hspends
        exact h.absent hi htoken
      simp [hspends]

theorem spent_at_most_once (hlast : TokensLast events s) (hfit : s.cache.TokensFit)
    (token : Token) : (history events s).countP (Exchange.spends token) ≤ 1 := by
  induction events generalizing s with
  | nil => exact Nat.zero_le _
  | cons e events ih =>
    have hmoves := moves_step e s
    have hrest := ih hlast.tail (tokensFit_step hlast hfit)
    rw [history, List.countP_append]
    cases hx : exchange? e s with
    | none => simpa using hrest
    | some x =>
      by_cases hspends : x.spends token = true
      · obtain ⟨k, i, hi, rfl, hd⟩ := hmoves.disturbs_of_spends hx hspends
        rw [not_spent_of_retired hlast.tail
          (hmoves.retired_of_disturbs (lastToken_le_step hlast) hfit hi hx hd)]
        simp [hspends]
      · simpa [hspends] using hrest

/-! ## Assigned tokens -/

theorem assigned?_eq_some (h : assigned? e s = some token) :
    token = s.cache.lastToken + 1 ∧
      (step e s).2.cache.lastToken = s.cache.lastToken + 1 := by
  simp only [assigned?, Option.bind_eq_some_iff, Option.map_eq_some_iff] at h
  obtain ⟨k, ⟨x, hx, hw⟩, i, hi, rfl⟩ := h
  obtain ⟨hnext, j, hj, htoken⟩ := ((moves_step e s).effect hx).written hw
  rw [hi] at hj
  cases hj
  exact ⟨htoken.trans hnext, hnext⟩

theorem lt_of_mem_assigned (hlast : TokensLast events s) (h : token ∈ assigned events s) :
    s.cache.lastToken < token := by
  induction events generalizing s with
  | nil => cases h
  | cons e events ih =>
    rw [assigned, List.mem_append, Option.mem_toList] at h
    rcases h with hhead | htail
    · obtain ⟨rfl, hnext⟩ := assigned?_eq_some hhead
      exact Moves.lt_next (lastToken_le_step hlast) hnext (UInt64.le_refl _)
    · exact UInt64.lt_of_le_of_lt (lastToken_le_step hlast) (ih hlast.tail htail)

theorem nodup_assigned (hlast : TokensLast events s) : (assigned events s).Nodup := by
  induction events generalizing s with
  | nil => exact List.nodup_nil
  | cons e events ih =>
    rw [assigned]
    cases hhead : assigned? e s with
    | none => exact ih hlast.tail
    | some token =>
      obtain ⟨htoken, hnext⟩ := assigned?_eq_some hhead
      refine List.nodup_cons.2 ⟨fun hmem => ?_, ih hlast.tail⟩
      have hlt := lt_of_mem_assigned hlast.tail hmem
      rw [hnext, htoken] at hlt
      exact UInt64.lt_irrefl _ hlt

/-- Every item was there before the run, or has a token that the run assigned. -/
theorem mem_assigned_of_item (h : (run events s).cache.items[k]? = some i) :
    s.cache.items[k]? = some i ∨ i.token ∈ assigned events s := by
  induction events generalizing s with
  | nil => exact .inl h
  | cons e events ih =>
    rw [assigned, List.mem_append, Option.mem_toList]
    rcases ih h with hitem | hmem
    · rcases (moves_step e s).item_cases hitem with hold | ⟨⟨x, hx, hw⟩, -, -⟩
      · exact .inl hold
      · have hassigned : assigned? e s = some i.token := by
          rw [assigned?, hx, Option.bind_some, hw, Option.bind_some, hitem, Option.map_some]
        exact .inr (.inl hassigned)
    · exact .inr (.inr hmem)

/-! ## From a read to a conditional store -/

theorem lingers_run (h : Lingers k i s) (hd : ∀ x ∈ history events s, ¬x.Disturbs k) :
    Lingers k i (run events s) := by
  induction events generalizing s with
  | nil => exact h
  | cons e events ih =>
    refine ih ((moves_step e s).lingers h fun x hx => hd x ?_) fun x hx => hd x ?_
    · simp [history, hx]
    · simp [history, hx]

theorem retired_of_disturbed (hlast : TokensLast events s) (hfit : s.cache.TokensFit)
    (h : s.cache.items[k]? = some i ∨ s.cache.Retired i.token) (hx : x ∈ history events s)
    (hd : x.Disturbs k) : (run events s).cache.Retired i.token := by
  induction events generalizing s with
  | nil => cases hx
  | cons e events ih =>
    have hmoves := moves_step e s
    have hle := lastToken_le_step hlast
    rw [run_cons]
    rcases h with hi | hretired
    · rw [history, List.mem_append, Option.mem_toList] at hx
      rcases hx with hhead | htail
      · exact retired_run hlast.tail (hmoves.retired_of_disturbs hle hfit hi hhead hd)
      · exact ih hlast.tail (tokensFit_step hlast hfit) (hmoves.stays_or_retired hle hfit hi) htail
    · exact retired_run hlast.tail (hmoves.retired hle hretired)

variable {read use : Event} {between : List Event} {data : Bytes} {ttl flags : UInt32}
  {answer : Response}

/-- What becomes of a conditional store with the token that an earlier read gave. -/
theorem answer_of_cas_after_read (hlast : TokensLast (read :: (between ++ more)) s)
    (hfit : s.cache.TokensFit) (hread : exchange? read s = some x)
    (htoken : (k, token) ∈ x.response.tokensFor x.command)
    (huse : exchange? use (run between (step read s).2) =
      some ⟨.cas k data token ttl flags, answer⟩) :
    ∃ i, (step read s).2.cache.items[k]? = some i ∧ i.token = token ∧
      let then' := run between (step read s).2
      (answer = .store .stored ↔
        (∀ y ∈ history between (step read s).2, ¬y.Disturbs k) ∧
          i.isExpired then'.now = false) ∧
      (answer ≠ .store .stored →
        answer = .store
          (if (then'.cache.live? then'.now k).isNone then .notFound else .exists)) := by
  obtain ⟨i, hi, rfl⟩ := (moves_step read s).item_of_read hread htoken
  refine ⟨i, hi, rfl, ?_⟩
  intro then'
  have hanswer : answer = .store ((then'.cache.live? then'.now k).elim .notFound fun j =>
      if j.token = i.token then .stored else .exists) :=
    (moves_step use then').answer_of_cas huse
  by_cases hd : ∀ y ∈ history between (step read s).2, ¬y.Disturbs k
  · have hlingers : Lingers k i then' := lingers_run (.inl hi) hd
    have hlive : then'.cache.live? then'.now k =
        if i.isExpired then'.now then none else some i := hlingers.live?_eq
    by_cases hexpired : i.isExpired then'.now = true
    · simp [hanswer, hlive, hexpired]
    · simpa [hanswer, hlive, hexpired] using hd
  · have hretired : then'.cache.Retired i.token := by
      simp only [not_forall, not_not] at hd
      obtain ⟨y, hy, hdisturbs⟩ := hd
      exact retired_of_disturbed hlast.tail.left (tokensFit_step hlast hfit) (.inl hi) hy hdisturbs
    cases hlive : then'.cache.live? then'.now k with
    | none => simp [hanswer, hlive, hd]
    | some j =>
      have hne : j.token ≠ i.token := hretired.absent (Cache.live?_eq_some_iff.1 hlive).1
      simp [hanswer, hlive, hne, hd]

/-- **A token identifies one version of one item.** Take any run of a fresh server that gives
out fewer than 2⁶⁴ tokens. Then every item has a token that was given out and assigned to it in
the run, no two items share a token, and no token is assigned or spent twice. And if a read gave
a token for a key, then a later conditional store with that token is answered

* `stored` if and only if the item was neither written nor removed in between, and is not past
  its deadline;
* otherwise `notFound` if the key has no live item, and `exists` if it has one. -/
theorem token_identifies_version (version : String) (events : List Event)
    (hissued : issued events (withVersion version) < UInt64.size) :
    let start := withVersion version
    let final := run events start
    (∀ (k : Key) (i : Cache.Entry), final.cache.items[k]? = some i →
      1 ≤ i.token ∧ i.token ≤ final.cache.lastToken ∧ i.token ∈ assigned events start) ∧
    (∀ (a b : Key) (i j : Cache.Entry), final.cache.items[a]? = some i →
      final.cache.items[b]? = some j → i.token = j.token → a = b) ∧
    final.cache.lastToken.toNat = issued events start ∧
    (assigned events start).Nodup ∧
    (∀ token, (history events start).countP (Exchange.spends token) ≤ 1) ∧
    ∀ before read between use after x k token data ttl flags answer,
      events = before ++ read :: (between ++ use :: after) →
      exchange? read (run before start) = some x →
      (k, token) ∈ x.response.tokensFor x.command →
      let seen := (step read (run before start)).2
      let now := run between seen
      exchange? use now = some ⟨.cas k data token ttl flags, answer⟩ →
      ∃ i, seen.cache.items[k]? = some i ∧ i.token = token ∧
        (answer = .store .stored ↔
          (∀ y ∈ history between seen, ¬y.Disturbs k) ∧ i.isExpired now.now = false) ∧
        (answer ≠ .store .stored →
          answer = .store (if (now.cache.live? now.now k).isNone then .notFound else .exists)) := by
  intro start final
  have hlast : TokensLast events start := tokensLast_withVersion hissued
  have hfit : start.cache.TokensFit := tokensFit_withVersion version
  refine ⟨?_, fun a b i j => (tokensFit_run hlast hfit).distinct,
    toNat_lastToken_run_withVersion hissued, nodup_assigned hlast, spent_at_most_once hlast hfit,
    ?_⟩
  · intro k i hi
    refine ⟨?_, (tokensFit_run hlast hfit).le_lastToken hi, ?_⟩
    · have hpos := (tokensFit_run hlast hfit).pos hi
      rw [UInt64.lt_iff_toNat_lt] at hpos
      exact UInt64.le_iff_toNat_le.2 hpos
    · rcases mem_assigned_of_item hi with hold | hmem
      · rw [getElem?_items_withVersion] at hold
        cases hold
      · exact hmem
  · intro before read between use after x k token data ttl flags answer hevents hread htoken
      seen now huse
    subst hevents
    exact answer_of_cas_after_read hlast.right (tokensFit_run hlast.left hfit) hread htoken huse

/-- A token that a read gave is spent once. Writing to another key does not matter. -/
theorem token_identifies_version_spent :
    let k : Key := ⟨[107], List.cons_ne_nil _ _, List.forall_mem_singleton.2 rfl⟩
    let other : Key := ⟨[108], List.cons_ne_nil _ _, List.forall_mem_singleton.2 rfl⟩
    let before : List Event :=
      [.openSession "", .connect 0, .execute 0 (.store .set k [1] 60 0), .openSession "",
        .connect 1]
    let read : Event := .execute 0 (.gets k)
    let between : List Event := [.control (.advance 1000), .execute 1 (.store .set other [2] 0 0)]
    let first : Event := .execute 0 (.cas k [3] 1 0 0)
    let second : Event := .execute 1 (.cas k [4] 1 0 0)
    let start := withVersion "1"
    let seen := (step read (run before start)).2
    issued (before ++ read :: (between ++ [first, second])) start < UInt64.size ∧
      exchange? read (run before start) = some ⟨.gets k, .item (some ⟨[1], 0, some 1⟩)⟩ ∧
      exchange? first (run between seen) = some ⟨.cas k [3] 1 0 0, .store .stored⟩ ∧
      exchange? second (run (between ++ [first]) seen) =
        some ⟨.cas k [4] 1 0 0, .store .exists⟩ ∧
      ∃ i, seen.cache.items[k]? = some i ∧ i.token = 1 ∧
        (∀ y ∈ history between seen, ¬y.Disturbs k) ∧ i.isExpired 1000 = false ∧
        ¬∀ y ∈ history (between ++ [first]) seen, ¬y.Disturbs k := by
  intro k other before read between first second start seen
  have hissued : issued (before ++ read :: (between ++ [first, second])) start < UInt64.size := by
    decide +kernel
  have hread : exchange? read (run before start) =
      some ⟨.gets k, .item (some ⟨[1], 0, some 1⟩)⟩ := by decide +kernel
  have hfirst : exchange? first (run between seen) =
      some ⟨.cas k [3] 1 0 0, .store .stored⟩ := by decide +kernel
  have hsecond : exchange? second (run (between ++ [first]) seen) =
      some ⟨.cas k [4] 1 0 0, .store .exists⟩ := by decide +kernel
  have hlater : (run (between ++ [first]) seen).now = 1000 := by decide +kernel
  have huses := (token_identifies_version "1" _ hissued).2.2.2.2.2
  obtain ⟨i, hi, htoken, hstored, -⟩ :=
    huses before read between first [second] _ k 1 _ _ _ _ rfl hread (by decide) hfirst
  obtain ⟨j, hj, -, hnot, -⟩ :=
    huses before read (between ++ [first]) second [] _ k 1 _ _ _ _ rfl hread (by decide) hsecond
  obtain ⟨hundisturbed, hlive⟩ := hstored.1 rfl
  have hnow : (run between seen).now = 1000 := by decide +kernel
  rw [hnow] at hlive
  refine ⟨hissued, hread, hfirst, hsecond, i, hi, htoken, hundisturbed, hlive, fun hall => ?_⟩
  cases hi.symm.trans hj
  rw [hlater] at hnot
  exact absurd (hnot.2 ⟨hall, hlive⟩) (by decide)

end Server

end CacheClient
