import CacheClient.Proofs.Cluster.ReadBack

/-!
# Joining bytes to a value

A client packs the bytes that it joins to a value like any other, but the server keeps the flags
of the item that it joins them to. So the item reads as the joined value only if neither part was
packed. Packed bytes behind or in front of plain ones are read as they stand, and bytes behind a
packed payload make it unreadable.

Main result: `get_after_join`. That bytes joined with success need not show in the value is
`get_after_append_packed`.
-/

namespace CacheClient

open Server

/-- The flags of an item say that its payload is packed. -/
def Cache.Entry.isPacked (i : Cache.Entry) : Bool := (Flags.ofBits i.flags).compressed

namespace Cluster

variable {c : Cluster} {j j' : Nat} {k : Key} {x y : Bytes} {mode : StoreMode} {v : Value}
  {options : StoreSettings}

/-! ## Before and after -/

theorem live?_of_get (h : (c.perform j (.get (.ofKey k))).1 = some (.ok (some v))) :
    ∃ i, c.server.cache.live? c.server.now k = some i ∧ i.data ≠ [] ∧
      Codec.decode i.data i.flags = .ok v := by
  have hresult := result_of_get (exchange_of_answer h (by simp [Operation.miss]))
  rw [h] at hresult
  exact Operation.hit?_eq_some_iff.1 (Option.some.inj hresult).symm

theorem live?_of_join (hmode : mode.joins = true)
    (h : (c.perform j (.store mode (.ofKey k) v options)).1 = some (.ok true)) :
    let c' := (c.perform j (.store mode (.ofKey k) v options)).2
    (c'.server.down = c.server.down ∧ c'.server.failNext = c.server.failNext) ∧
      ∃ i token, c.server.cache.live? c.server.now k = some i ∧
        c'.server.cache.live? c'.server.now k =
          some { i with
            data := mode.join i.data (Codec.pack v options.threshold).data
            token } := by
  intro c'
  obtain ⟨⟨command, response⟩, hx⟩ :=
    Option.ne_none_iff_exists'.1 (exchange_of_answer h (by simp [Operation.miss]))
  obtain ⟨client, result, hclient, hperform, hcommand, hcarried, hresult⟩ :=
    answered_of_exchange hx
  rw [hperform] at h
  obtain rfl := Option.some.inj h
  -- the command, and the item that it writes
  cases Operation.denotes_of_command hcommand with
  | store hk hs =>
    obtain rfl := (Operation.eq_of_keyOf_ofKey_eq_ok hk).symm
    obtain rfl := Codec.eq_pack_of_encode_eq_ok hs
    have hanswer := hresult.resolve_left (by simp)
    obtain ⟨status, rfl, hstatus⟩ := Operation.outcome_of_answer?_store hanswer
    cases status with
    | stored =>
      obtain ⟨hnow, hdown, hfailNext⟩ := hcarried.frame
      obtain ⟨i', hi', hwrites⟩ := hcarried.moves.writes (k := k) rfl
      obtain ⟨i, hi, rfl⟩ := hwrites.exists_joined hmode
      refine ⟨⟨hdown, hfailNext⟩, i, _, hi, Cache.live?_eq_some_iff.2 ⟨hi', ?_⟩⟩
      rw [hnow]
      exact (Cache.live?_eq_some_iff.1 hi).2
    | _ => simp [StoreOutcome.isStored] at hstatus

theorem result_after_join (hmode : mode.joins = true) (hup : c.server.down = false)
    (hfail : c.server.failNext = 0)
    (hget : (c.perform j (.get (.ofKey k))).1 = some (.ok (some (.raw x))))
    (hjoin : (c.perform j' (.store mode (.ofKey k) v options)).1 = some (.ok true)) :
    ∃ i, c.server.cache.live? c.server.now k = some i ∧
      Codec.decode i.data i.flags = .ok (.raw x) ∧
      ((c.perform j' (.store mode (.ofKey k) v options)).2.perform j (.get (.ofKey k))).1 =
        some ((Codec.decode (mode.join i.data (Codec.pack v options.threshold).data)
          i.flags).map some) := by
  obtain ⟨i, hi, hne, hdecode⟩ := live?_of_get hget
  obtain ⟨⟨hdown, hfailNext⟩, old, token, hold, hlive⟩ := live?_of_join hmode hjoin
  cases hi.symm.trans hold
  refine ⟨i, hi, hdecode, ?_⟩
  -- the reader still accepts the key
  obtain ⟨⟨command, response⟩, hx⟩ :=
    Option.ne_none_iff_exists'.1 (exchange_of_answer hget (by simp [Operation.miss]))
  obtain ⟨client, result, hclient, -, hcommand, -, -⟩ := answered_of_exchange hx
  obtain ⟨client', hclient', hconfig⟩ :=
    config_perform hclient j' (.store mode (.ofKey k) v options)
  have hcommand' : Operation.command client'.config client'.tokens.get? (.get (.ofKey k)) =
      .ok (some command) := by
    rw [hconfig]
    exact hcommand
  have hexchange := exchange_of_available (hdown.trans hup) (hfailNext.trans hfail) hclient'
    hcommand'
  rw [result_of_get hexchange, hlive, Option.map_some, Operation.hit?_shown,
    if_neg (StoreMode.join_ne_nil hmode hne _)]

/-! ## What the joined bytes read as -/

/-- **Joined bytes read as the joined value if and only if neither part was packed.** Let a read
of a key find raw bytes, and let a client join raw bytes to them with success, on a server that
is up and has no timeouts ordered. For the read that follows,

* if the item is plain, it finds the old bytes and the stored form of the new ones. These are
  the joined values if and only if the new bytes were stored plain;
* if the item is packed, it finds the joined values only if unpacking the joined payloads happens
  to give them. If they are behind one that a client has packed, it reports that the payload
  cannot be unpacked. -/
theorem get_after_join (hmode : mode.joins = true) (hup : c.server.down = false)
    (hfail : c.server.failNext = 0)
    (hget : (c.perform j (.get (.ofKey k))).1 = some (.ok (some (.raw x))))
    (hjoin : (c.perform j' (.store mode (.ofKey k) (.raw y) options)).1 = some (.ok true)) :
    let c' := (c.perform j' (.store mode (.ofKey k) (.raw y) options)).2
    let result := (c'.perform j (.get (.ofKey k))).1
    let fragment := Codec.pack (.raw y) options.threshold
    ∃ i, c.server.cache.live? c.server.now k = some i ∧
      (i.isPacked = false →
        result = some (.ok (some (.raw (mode.join x fragment.data)))) ∧
        (result = some (.ok (some (.raw (mode.join x y)))) ↔ fragment.flags.compressed = false)) ∧
      (i.isPacked = true →
        (result = some (.ok (some (.raw (mode.join x y)))) ↔
          Lz4.decompress (mode.join i.data fragment.data) = .ok (mode.join x y)) ∧
        (mode = .append → i.data = Lz4.compress x → x.length < Bytes.span 4 → y ≠ [] →
          ∃ cause, result = some (.error (.compression cause)))) := by
  intro c' result fragment
  obtain ⟨i, hi, hdecode, hresult⟩ := result_after_join hmode hup hfail hget hjoin
  have hresult : result =
      some ((Codec.decode (mode.join i.data fragment.data) i.flags).map some) := hresult
  obtain ⟨hraw, hdata⟩ := Codec.decode_eq_raw_iff.1 hdecode
  have hfound (z : Bytes) : result = some (.ok (some (.raw z))) ↔
      if i.isPacked then Lz4.decompress (mode.join i.data fragment.data) = .ok z
      else mode.join i.data fragment.data = z := by
    have hmap : (Codec.decode (mode.join i.data fragment.data) i.flags).map some =
        .ok (some (.raw z)) ↔
          Codec.decode (mode.join i.data fragment.data) i.flags = .ok (.raw z) := by
      cases Codec.decode (mode.join i.data fragment.data) i.flags <;> simp [Except.map]
    rw [hresult, Option.some.injEq, hmap, Codec.decode_eq_raw_iff]
    exact and_iff_right hraw
  refine ⟨i, hi, ?_, ?_⟩
  · intro hplain
    have hdata : i.data = x := by
      rw [Cache.Entry.isPacked] at hplain
      simpa [hplain] using hdata
    rw [hdata] at hfound
    constructor
    · rw [hfound]
      simp [hplain]
    · rw [hfound]
      simp only [hplain, Bool.false_eq_true, if_false, StoreMode.join_inj hmode]
      exact Codec.data_pack_eq_iff
  · intro hpacked
    constructor
    · rw [hfound]
      simp [hpacked]
    · rintro rfl hstored hlen hne
      have hfragment : fragment.data ≠ [] :=
        Codec.data_pack_ne_nil (v := .raw y) hne options.threshold
      obtain ⟨cause, hcause⟩ := Lz4.decompress_compress_append_error hlen hfragment
      refine ⟨cause, ?_⟩
      rw [Cache.Entry.isPacked] at hpacked
      rw [hresult, StoreMode.join, hstored, Codec.decode, if_pos hpacked, hcause]
      rfl

/-- A byte behind a packed value makes it unreadable. -/
theorem get_after_join_unreadable :
    let k : Key := ⟨[107], List.cons_ne_nil _ _, List.forall_mem_singleton.2 rfl⟩
    let x : Bytes := List.replicate 40 97
    let events : List Event := [.act 0 (.perform (.store .set (.ofKey k) (.raw x) ⟨0, 10⟩))]
    let c := (run events (ofConfigs (withVersion "1") [{}, {}])).2
    let join : Operation := .store .append (.ofKey k) (.raw [98]) {}
    c.server.down = false ∧ c.server.failNext = 0 ∧
      (c.perform 0 (.get (.ofKey k))).1 = some (.ok (some (.raw x))) ∧
      (c.perform 1 (.store .append (.ofKey k) (.raw [98]) {})).1 = some (.ok true) ∧
      ∃ cause, ((c.perform 1 join).2.perform 0 (.get (.ofKey k))).1 =
        some (.error (.compression cause)) := by
  intro k x events c join
  have hup : c.server.down = false := by decide +kernel
  have hfail : c.server.failNext = 0 := by decide +kernel
  have hget : (c.perform 0 (.get (.ofKey k))).1 = some (.ok (some (.raw x))) := by decide +kernel
  have hjoin : (c.perform 1 (.store .append (.ofKey k) (.raw [98]) {})).1 = some (.ok true) := by
    decide +kernel
  have hitem : (c.server.cache.live? c.server.now k).map (fun i => (i.isPacked, i.data)) =
      some (true, Lz4.compress x) := by decide +kernel
  obtain ⟨i, hi, -, hpacked⟩ := get_after_join rfl hup hfail hget hjoin
  rw [hi, Option.map_some, Option.some.injEq, Prod.mk.injEq] at hitem
  exact ⟨hup, hfail, hget, hjoin,
    (hpacked hitem.1).2 rfl hitem.2 (by decide) (List.cons_ne_nil _ _)⟩

/-- Bytes that are packed before they are appended do not show in the value. -/
theorem get_after_append_packed :
    ¬∀ (version : String) (configs : List Config) (events : List Event) (j : Nat) (k : Key)
        (x y : Bytes) (options : StoreSettings),
      let c := (run events (ofConfigs (withVersion version) configs)).2
      let out := c.perform j (.store .append (.ofKey k) (.raw y) options)
      c.server.down = false → c.server.failNext = 0 →
      (c.perform j (.get (.ofKey k))).1 = some (.ok (some (.raw x))) →
      out.1 = some (.ok true) →
      (out.2.perform j (.get (.ofKey k))).1 = some (.ok (some (.raw (x ++ y)))) := by
  intro h
  let k : Key := ⟨[107], List.cons_ne_nil _ _, List.forall_mem_singleton.2 rfl⟩
  let events : List Event := [.act 0 (.perform (.store .set (.ofKey k) (.raw [120]) {}))]
  have hread := h "1" [{}] events 0 k [120] (List.replicate 40 97) ⟨0, 1⟩ (by decide +kernel)
    (by decide +kernel) (by decide +kernel) (by decide +kernel)
  exact absurd hread (by decide +kernel)

end Cluster

end CacheClient
