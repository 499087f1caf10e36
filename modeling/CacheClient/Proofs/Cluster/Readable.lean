import CacheClient.Proofs.Cluster.History
import CacheClient.Proofs.Codec.Numbers

/-!
# What clients write, clients can read

Clients that join no bytes to values leave items of two kinds behind (`Legible`): stored forms of
values, and numbers that counting has left under plain flags. A packed payload is never counted,
because the length in front of it ends in a zero byte as long as it is below 2²⁴, and no numeral
holds such a byte (`flags_of_counter?_pack`). So a stored form is read back, and the one thing
that cannot be read is a counter which has grown too large for the signed word that its flags
promise.

Main result: `error_of_unjoined`.
-/

namespace CacheClient

open Server

/-! ## Counters -/

/-- The fourth byte of a packed payload is zero, unless the payload is very long. -/
theorem Lz4.zero_mem_compress {bytes : Bytes} (h : bytes.length < Bytes.span 3) :
    0 ∈ compress bytes := by
  have hzero : bytes.length / 256 / 256 / 256 % 256 = 0 := by
    simp only [Bytes.span] at h
    omega
  simp [compress, Bytes.littleEndian, hzero]

theorem Codec.flags_of_counter?_pack {v : Value} {threshold : Nat} {n : UInt64}
    (hlen : v.payload.length < Bytes.span 3)
    (h : Cache.counter? (pack v threshold).data = some n) :
    (pack v threshold).flags = .plain v.encoding := by
  rcases pack_cases v threshold with hp | hp
  · rw [hp]
  · rw [hp, Cache.counter?_of_zero_mem (Lz4.zero_mem_compress hlen)] at h
    cases h

/-- The number of a counter is read back under any plain flags, unless they promise a signed word
and it is too large for one. -/
theorem Codec.decode_showCounter_error {encoding : Encoding} {n : UInt64} {error : Error}
    (h : decode (Cache.showCounter n) (Flags.plain encoding).bits = .error error) :
    (∃ cause, error = .type cause) ∧ encoding = .int ∧ 0x8000000000000000 ≤ n.toNat := by
  have hread := interpret_showCounter encoding n
  rw [decode, Flags.ofBits_bits] at h
  have h : interpret encoding (Cache.showCounter n) = .error error := h
  rw [h] at hread
  cases encoding with
  | raw => cases hread
  | object => cases hread
  | long => cases hread
  | int =>
    rw [ReadsAs] at hread
    split at hread
    · cases hread
    · next hn =>
      obtain ⟨cause, hcause⟩ := hread
      exact ⟨⟨cause, Except.error.inj hcause⟩, rfl, by omega⟩

/-! ## Items that can be read -/

/-- The key that was counted, and the number that came of it. -/
def Exchange.counted? : Exchange → Option (Key × UInt64)
  | ⟨.incr k _, .counter (some n)⟩ => some (k, n)
  | ⟨.decr k _, .counter (some n)⟩ => some (k, n)
  | _ => none

/-- Of the exchanges that disturbed a key, the last one counted, and `n` came of it. -/
def CountedLast (past : List Exchange) (k : Key) (n : UInt64) : Prop :=
  ∃ earlier x later, past = earlier ++ x :: later ∧ x.counted? = some (k, n) ∧
    ∀ y ∈ later, ¬y.Disturbs k

theorem CountedLast.append {past : List Exchange} {k : Key} {n : UInt64}
    (h : CountedLast past k n) {more : List Exchange} (hmore : ∀ y ∈ more, ¬y.Disturbs k) :
    CountedLast (past ++ more) k n := by
  obtain ⟨earlier, x, later, rfl, hx, hlater⟩ := h
  refine ⟨earlier, x, later ++ more, by simp, hx, ?_⟩
  intro y hy
  rcases List.mem_append.1 hy with hy | hy
  · exact hlater y hy
  · exact hmore y hy

theorem countedLast_snoc {past : List Exchange} {x : Exchange} {k : Key} {n : UInt64}
    (h : x.counted? = some (k, n)) : CountedLast (past ++ [x]) k n := by
  refine ⟨past, x, [], rfl, h, ?_⟩
  simp

/-- An item is the stored form of a value that is not very long, or a counter that has kept plain
flags, after the exchanges of the past. -/
inductive Legible (past : List Exchange) (k : Key) : Cache.Entry → Prop
  | stored {v threshold token deadline} (hlen : v.payload.length < Bytes.span 3) :
      Legible past k ⟨(Codec.pack v threshold).data, (Codec.pack v threshold).flags.bits, token,
        deadline⟩
  | counter {encoding n token deadline} (hlast : CountedLast past k n) :
      Legible past k ⟨Cache.showCounter n, (Flags.plain encoding).bits, token, deadline⟩

namespace Legible

variable {past : List Exchange} {k : Key} {i : Cache.Entry}

theorem append (h : Legible past k i) {more : List Exchange} (hmore : ∀ y ∈ more, ¬y.Disturbs k) :
    Legible (past ++ more) k i := by
  cases h with
  | stored hlen => exact .stored hlen
  | counter hlast => exact .counter (hlast.append hmore)

theorem count (h : Legible past k i) {x : Exchange} {n m : UInt64} {token : Token}
    (hn : Cache.counter? i.data = some n) (hx : x.counted? = some (k, m)) :
    Legible (past ++ [x]) k { i with data := Cache.showCounter m, token } := by
  cases h with
  | stored hlen =>
    rw [Codec.flags_of_counter?_pack hlen hn]
    exact .counter (countedLast_snoc hx)
  | counter hlast => exact .counter (countedLast_snoc hx)

theorem decode_error (h : Legible past k i) {error : Error}
    (herror : Codec.decode i.data i.flags = .error error) :
    (∃ cause, error = .type cause) ∧ i.flags = Encoding.int.bit ∧
      ∃ n, i.data = Cache.showCounter n ∧ 0x8000000000000000 ≤ n.toNat ∧
        CountedLast past k n := by
  cases h with
  | @stored v threshold token deadline hlen =>
    have hlen : v.payload.length < Bytes.span 4 := by
      simp only [Bytes.span] at hlen ⊢
      omega
    cases herror.symm.trans (Codec.decode_pack_bits hlen threshold)
  | @counter encoding n token deadline hlast =>
    obtain ⟨htype, rfl, hlarge⟩ := Codec.decode_showCounter_error herror
    exact ⟨htype, rfl, n, rfl, hlarge, hlast⟩

end Legible

/-! ## Steps and runs -/

/-- Every item of a server is legible. -/
def AllLegible (past : List Exchange) (s : Server) : Prop :=
  ∀ k i, s.cache.items[k]? = some i → Legible past k i

/-- What an exchange puts in place of an item is the stored form of a value that is not very
long, and it joins no bytes. -/
structure Exchange.Tame (x : Exchange) : Prop where
  put : ∀ {p}, x.put? = some p →
    ∃ source v options, v.payload.length < Bytes.span 3 ∧ p = Cluster.putOf (source, v, options)
  unjoined : ∀ {mode k data ttl flags}, x.command = .store mode k data ttl flags →
    mode.joins = false

theorem Legible.of_writes {past : List Exchange} {now : Nat} {token : Token} {x : Exchange}
    {k : Key} {live? : Option Cache.Entry} {i : Cache.Entry}
    (h : Cache.Writes now token x live? i) (hw : x.written? = some k) (htame : x.Tame)
    (hlive : ∀ old, live? = some old → Legible past k old) : Legible (past ++ [x]) k i := by
  cases h with
  | @put mode a data ttl flags live? hmode =>
    have hput : Exchange.put? ⟨.store mode a data ttl flags, .store .stored⟩ =
        some (.ofKey a, data, ttl, flags) := by simp [Exchange.put?, hmode]
    obtain ⟨source, v, options, hlen, hput⟩ := htame.put hput
    simp only [Cluster.putOf, Prod.mk.injEq] at hput
    obtain ⟨-, rfl, -, rfl⟩ := hput
    exact .stored hlen
  | cas =>
    obtain ⟨source, v, options, hlen, hput⟩ := htame.put rfl
    simp only [Cluster.putOf, Prod.mk.injEq] at hput
    obtain ⟨-, rfl, -, rfl⟩ := hput
    exact .stored hlen
  | join hmode =>
    have hnot := htame.unjoined rfl
    rw [hmode] at hnot
    cases hnot
  | incr hn =>
    cases hw
    exact (hlive _ rfl).count hn rfl
  | decr hn =>
    cases hw
    exact (hlive _ rfl).count hn rfl

theorem AllLegible.move {past : List Exchange} {s s' : Server} {x? : Option Exchange}
    (h : AllLegible past s) (hmoves : Moves s x? s') (htame : ∀ x, x? = some x → x.Tame) :
    AllLegible (past ++ x?.toList) s' := by
  intro k i hi
  by_cases hd : ∃ x, x? = some x ∧ x.Disturbs k
  · obtain ⟨x, rfl, hw | hr⟩ := hd
    · obtain ⟨j, hj, hwrites⟩ := hmoves.writes hw
      cases hi.symm.trans hj
      refine .of_writes hwrites hw (htame x rfl) ?_
      intro old hold
      exact h k old (Cache.live?_eq_some_iff.1 hold).1
    · rw [(hmoves.effect rfl).removed hr] at hi
      cases hi
  · have hspared : ∀ x, x? = some x → ¬x.Disturbs k := by
      intro x hx hxk
      exact hd ⟨x, hx, hxk⟩
    have hold : s.cache.items[k]? = some i := by
      rcases hmoves.item_of_not_disturbed hspared with hk | hk
      · rw [← hk, hi]
      · rw [hi] at hk
        exact (Cache.live?_eq_some_iff.1 hk.symm).1
    refine (h k i hold).append ?_
    simpa using hspared

namespace Cluster

variable {c : Cluster} {e : Event} {events : List Event} {past : List Exchange}

/-- The event is an operation that joins bytes to a value. -/
def Event.joins : Event → Bool
  | .act _ (.perform (.store mode ..)) => mode.joins
  | _ => false

/-- What an operation that joins nothing stores, if the value is not very long, is tame. -/
theorem tame_of_exchange {x : Exchange} (hx : exchange? e c = some x)
    (hjoin : e.joins = false)
    (hlen : ∀ {source v options}, e.stored? (step e c).1 = some (source, v, options) →
      v.payload.length < Bytes.span 3) : x.Tame where
  put {p} hp := by
    have hput := put?_exchange e c
    rw [hx, Option.bind_some, hp, eq_comm, Option.map_eq_some_iff] at hput
    obtain ⟨⟨source, v, options⟩, hstored, rfl⟩ := hput
    exact ⟨source, v, options, hlen hstored, rfl⟩
  unjoined {mode k data ttl flags} hcommand := by
    obtain ⟨j, op, rfl⟩ := eq_perform_of_exchange hx
    obtain ⟨client, result, -, -, hanswered⟩ := answered_of_exchange hx
    have hdenotes := Operation.denotes_of_command hanswered.command
    rw [hcommand] at hdenotes
    cases hdenotes with
    | store => exact hjoin
    | casPlain => rfl

/-- Every item stays legible in a run that joins nothing and stores no very long values. -/
theorem allLegible_run (h : AllLegible past c.server) (hjoin : ∀ e ∈ events, e.joins = false)
    (hlen : ∀ entry ∈ (run events c).1, ∀ source v options,
      entry.1.stored? entry.2 = some (source, v, options) → v.payload.length < Bytes.span 3) :
    AllLegible (past ++ history events c) (run events c).2.server := by
  induction events generalizing c past with
  | nil => simpa [history, run] using h
  | cons e events ih =>
    rw [run_cons] at hlen ⊢
    rw [history, ← List.append_assoc]
    have hstep : AllLegible (past ++ (exchange? e c).toList) (step e c).2.server := by
      refine h.move (moves_step e c) ?_
      intro x hx
      refine tame_of_exchange hx (hjoin e List.mem_cons_self) ?_
      intro source v options hstored
      exact hlen ⟨e, (step e c).1⟩ List.mem_cons_self source v options hstored
    refine ih hstep ?_ ?_
    · intro e he
      exact hjoin e (List.mem_cons_of_mem _ he)
    · intro entry hentry
      exact hlen entry (List.mem_cons_of_mem _ hentry)

/-- **What clients write, clients can read.** Let clients on a server without items do whatever
they want except joining bytes to values, and store no value whose payload is 2²⁴ bytes long or
longer. Then no read, whichever client asks for whichever keys, fails because an item cannot be
unpacked or holds no object. A read fails because an item does not have the type that its flags
promise only if one of its keys then has a live item under the flags of an integer which shows a
number from 2⁶³ on, and this number came of the exchange that disturbed the key last. -/
theorem error_of_unjoined {start : Cluster} (hstart : start.server.cache.items = ∅)
    (hjoin : ∀ e ∈ events, e.joins = false)
    (hlen : ∀ entry ∈ (run events start).1, ∀ source v options,
      entry.1.stored? entry.2 = some (source, v, options) → v.payload.length < Bytes.span 3)
    {j : Nat} {op : Operation} {error : Error}
    (herror : ((run events start).2.perform j op).1 = some (.error error)) :
    let server := (run events start).2.server
    (∀ cause, error ≠ .compression cause) ∧ (∀ cause, error ≠ .serialization cause) ∧
      ∀ cause, error = .type cause → ∃ k i n, .ofKey k ∈ op.sources ∧
        server.cache.live? server.now k = some i ∧ i.flags = Encoding.int.bit ∧
        i.data = Cache.showCounter n ∧ 0x8000000000000000 ≤ n.toNat ∧
        CountedLast (history events start) k n := by
  intro server
  have hnone : AllLegible [] start.server := by
    intro k i hi
    rw [hstart, Std.ExtTreeMap.getElem?_empty] at hi
    cases hi
  have hlegible : AllLegible (history events start) server := allLegible_run hnone hjoin hlen
  have hread (hunreadable : error.isUnreadable = true) :
      (∃ cause, error = .type cause) ∧ ∃ k i n, .ofKey k ∈ op.sources ∧
        server.cache.live? server.now k = some i ∧ i.flags = Encoding.int.bit ∧
        i.data = Cache.showCounter n ∧ 0x8000000000000000 ≤ n.toNat ∧
        CountedLast (history events start) k n := by
    cases hj : (run events start).2.clients[j]? with
    | none =>
      rw [perform, step_act_of_none hj] at herror
      cases herror
    | some client =>
      rw [perform, result_step_act hj] at herror
      obtain ⟨k, i, hk, hi, hdecode⟩ :=
        Client.exists_unreadable_item (Option.some.inj herror) hunreadable
      obtain ⟨htype, hflags, n, hdata, hlarge, hlast⟩ :=
        (hlegible k i (Cache.live?_eq_some_iff.1 hi).1).decode_error hdecode
      exact ⟨htype, k, i, n, hk, hi, hflags, hdata, hlarge, hlast⟩
  refine ⟨?_, ?_, ?_⟩
  · rintro cause rfl
    obtain ⟨⟨_, htype⟩, -⟩ := hread rfl
    cases htype
  · rintro cause rfl
    obtain ⟨⟨_, htype⟩, -⟩ := hread rfl
    cases htype
  · rintro cause rfl
    exact (hread rfl).2

/-- The largest integer, counted up by one, cannot be read any more. -/
theorem error_of_unjoined_counter :
    let k : Key := ⟨[107], List.cons_ne_nil _ _, List.forall_mem_singleton.2 rfl⟩
    let events : List Event :=
      [.act 0 (.perform (.store .set (.ofKey k) (.int 0x7FFFFFFFFFFFFFFF) {})),
        .act 1 (.perform (.incr (.ofKey k) 1))]
    let start := ofConfigs (withVersion "1") [{}, {}]
    start.server.cache.items = ∅ ∧ (∀ e ∈ events, e.joins = false) ∧
      (∀ entry ∈ (run events start).1, ∀ source v options,
        entry.1.stored? entry.2 = some (source, v, options) →
          v.payload.length < Bytes.span 3) ∧
      ((run events start).2.perform 0 (.get (.ofKey k))).1 =
        some (.error (.type (.invalidInteger .tooLarge))) ∧
      ∃ n, CountedLast (history events start) k n ∧ 0x8000000000000000 ≤ n.toNat := by
  intro k events start
  have hstart : start.server.cache.items = ∅ := rfl
  have hjoin : ∀ e ∈ events, e.joins = false := by simp [events, Event.joins, StoreMode.joins]
  have hlen : ∀ entry ∈ (run events start).1, ∀ source v options,
      entry.1.stored? entry.2 = some (source, v, options) → v.payload.length < Bytes.span 3 := by
    intro entry hentry source v options hstored
    simp only [events, run, List.mem_cons, List.not_mem_nil, or_false] at hentry
    rcases hentry with rfl | rfl
    · have hdone : (step (.act 0 (.perform (.store .set (.ofKey k) (.int 0x7FFFFFFFFFFFFFFF) {})))
          start).1 = some (.ok true) := by decide +kernel
      rw [hdone] at hstored
      cases hstored
      decide +kernel
    · cases hstored
  have herror : ((run events start).2.perform 0 (.get (.ofKey k))).1 =
      some (.error (.type (.invalidInteger .tooLarge))) := by decide +kernel
  clear_value start
  obtain ⟨-, -, hcounter⟩ := error_of_unjoined hstart hjoin hlen herror
  obtain ⟨a, i, n, ha, -, -, -, hlarge, hlast⟩ := hcounter (.invalidInteger .tooLarge) rfl
  obtain rfl : k = a := by
    have hak : Key.Source.ofKey a = .ofKey k := List.mem_singleton.1 ha
    exact (Key.Source.ofKey_inj hak).symm
  exact ⟨hstart, hjoin, hlen, herror, n, hlast, hlarge⟩

end Cluster

end CacheClient
