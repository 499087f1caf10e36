import CacheClient.Proofs.Cluster.History

/-!
# What was stored is what is read

A value that a client has stored under a key stays there until somebody disturbs the key or its
time to live is over, whatever else the clients and the server go through. Every client reads it
back as it was, under its own limits and switches, because the server keeps the stored form as it
is and reading it takes no configuration.

Main result: `read_of_stored`.
-/

namespace CacheClient

open Server

namespace Cluster

variable {c : Cluster} {e : Event} {events : List Event} {k : Key} {v : Value}
  {options : StoreSettings}

theorem item_of_stored (h : e.stored? (step e c).1 = some (.ofKey k, v, options)) :
    ∃ token, (step e c).2.server.cache.items[k]? =
      some ⟨(Codec.pack v options.threshold).data, (Codec.pack v options.threshold).flags.bits,
        token, Cache.deadline c.server.now options.ttl⟩ := by
  have hput := put?_exchange e c
  rw [h, Option.map_some, Option.bind_eq_some_iff] at hput
  obtain ⟨x, hx, hput⟩ := hput
  have hmoves := moves_step e c
  rw [hx] at hmoves
  exact ⟨_, hmoves.item_of_put hput⟩

/-- **What was stored is what is read.** Let a client store a value under a key with success, be
it in any case, only where there is none, only in place of another, or on condition of a token.
After any further steps of the clients and the server that leave the key undisturbed, a read of
the key by any client, if its command is carried out, gives the value as it was as long as its
time to live is not over, and finds nothing from then on. A value with an empty stored form is
not found either. -/
theorem read_of_stored (hstored : e.stored? (step e c).1 = some (.ofKey k, v, options))
    (hlen : v.payload.length < Bytes.span 4)
    (hkeep : ∀ x ∈ history events (step e c).2, ¬x.Disturbs k) (j : Nat) :
    let c' := (run events (step e c).2).2
    let found :=
      if (Codec.pack v options.threshold).data = [] ∨
          options.ttl ≠ 0 ∧ c.server.now + 1000 * options.ttl.toNat ≤ c'.server.now then none
      else some v
    (exchange? (.act j (.perform (.get (.ofKey k)))) c' ≠ none →
        (c'.perform j (.get (.ofKey k))).1 = some (.ok found)) ∧
      (exchange? (.act j (.perform (.gets (.ofKey k)))) c' ≠ none →
        (c'.perform j (.gets (.ofKey k))).1 = some (.ok found)) := by
  intro c' found
  obtain ⟨token, hitem⟩ := item_of_stored hstored
  have hlive := (lingers_run (.inl hitem) hkeep : Lingers k _ c'.server).live?_eq
  have hhit (withToken : Bool) :
      Operation.hit? ((c'.server.cache.live? c'.server.now k).map
        (Cache.Entry.shown withToken)) = .ok found := by
    rw [hlive]
    by_cases hover : options.ttl ≠ 0 ∧
        c.server.now + 1000 * options.ttl.toNat ≤ c'.server.now
    · have hfound : found = none := if_pos (.inr hover)
      rw [if_pos (Cache.isExpired_deadline_iff.2 hover), hfound]
      rfl
    · rw [if_neg fun h => hover (Cache.isExpired_deadline_iff.1 h), Option.map_some,
        Operation.hit?_shown]
      by_cases hempty : (Codec.pack v options.threshold).data = []
      · have hfound : found = none := if_pos (.inl hempty)
        rw [if_pos hempty, hfound]
      · have hfound : found = some v := if_neg (by simp [hempty, hover])
        have hdecode := Codec.decode_pack hlen options.threshold (u := 0) rfl
        rw [UInt32.or_zero] at hdecode
        rw [if_neg hempty, hdecode, hfound]
        rfl
  constructor
  · intro hget
    rw [result_of_get hget, hhit]
  · intro hgets
    rw [result_of_gets hgets, hhit]

/-- Another client, with other settings, reads a packed value back after its session was lost and
an attempt to store was refused, until the second is over. -/
theorem read_of_stored_packed :
    let k : Key := ⟨[107], List.cons_ne_nil _ _, List.forall_mem_singleton.2 rfl⟩
    let v : Value := .object (List.replicate 30 97)
    let options : StoreSettings := { ttl := 1, threshold := 10 }
    let c := ofConfigs (withVersion "1")
      [{}, { enableSerialization := false, maxValueLength := 3, treatErrorsAsMiss := true }]
    let e : Event := .act 0 (.perform (.store .set (.ofKey k) v options))
    let events : List Event :=
      [.control .killConnections, .act 1 (.perform (.store .add (.ofKey k) (.raw [98]) {})),
        .control (.advance 999)]
    let before := (run events (step e c).2).2
    let after := (run (events ++ [.control (.advance 1)]) (step e c).2).2
    e.stored? (step e c).1 = some (.ofKey k, v, options) ∧
      v.payload.length < Bytes.span 4 ∧
      (history events (step e c).2).length = 1 ∧
      (∀ x ∈ history (events ++ [.control (.advance 1)]) (step e c).2, ¬x.Disturbs k) ∧
      (before.perform 1 (.get (.ofKey k))).1 = some (.ok (some v)) ∧
      (after.perform 1 (.gets (.ofKey k))).1 = some (.ok none) := by
  intro k v options c e events before after
  have hdone : (step e c).1 = some (.ok true) := by decide +kernel
  have hstored : e.stored? (step e c).1 = some (.ofKey k, v, options) :=
    congrArg e.stored? hdone
  have hlen : v.payload.length < Bytes.span 4 := by decide
  have hkeep : ∀ x ∈ history events (step e c).2, ¬x.Disturbs k := by decide +kernel
  have hkeep' : ∀ x ∈ history (events ++ [.control (.advance 1)]) (step e c).2, ¬x.Disturbs k := by
    decide +kernel
  have hget : exchange? (.act 1 (.perform (.get (.ofKey k)))) before ≠ none := by decide +kernel
  have hgets : exchange? (.act 1 (.perform (.gets (.ofKey k)))) after ≠ none := by decide +kernel
  have hbefore := (read_of_stored hstored hlen hkeep 1).1 hget
  have hafter := (read_of_stored hstored hlen hkeep' 1).2 hgets
  refine ⟨hstored, hlen, by decide +kernel, hkeep', ?_, ?_⟩
  · rw [hbefore]
    decide +kernel
  · rw [hafter]
    decide +kernel

end Cluster

end CacheClient
