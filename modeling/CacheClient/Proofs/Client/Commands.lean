import CacheClient.Proofs.Client.Tokens
import CacheClient.Proofs.Codec.Packing

/-!
# What a client sends

Every command that reaches a network is well-formed, whatever the network does and wherever its
keys and values come from (`WellFormed`). Keys are validated under the client's own limit for each
operation. Values are measured as they are stored, which may be packed. A token can only come from
the registry, and nothing is in there that was not received.

The invariant of a run is that every token remembered was received for its key (`Informed`).

Main result: `sends_well_formed`.
-/

namespace CacheClient

open Log

/-! ## Keys -/

/-- A key that a client may send. -/
structure Key.Fit (config : Config) (k : Key) : Prop where
  nonempty : k.bytes ≠ []
  short : config.maxKeyLength ≠ 0 → k.length ≤ config.maxKeyLength
  allowed : ∀ b ∈ k.bytes, 33 ≤ b ∧ b ≠ 127

namespace Operation

variable {config : Config} {token? : Key → Option Token}

/-- A source gives a key under the client's own limit, also if it is a key already. -/
theorem fit_of_keyOf {source : Key.Source} {k : Key} (h : keyOf config source = .ok k) :
    k.Fit config where
  nonempty := k.nonempty
  short := (keyOf_eq_ok_iff.1 h).2.resolve_left
  allowed b hb := by
    have hallowed := k.allowed b hb
    rw [Key.isForbidden, Bool.or_eq_false_iff, decide_eq_false_iff_not] at hallowed
    exact ⟨UInt8.not_lt.1 hallowed.1, beq_eq_false_iff_ne.1 hallowed.2⟩

theorem keys_ne_nil_of_command {op : Operation} {keys : List Key} {command : Command}
    (h : op.command config token? = .ok (some command))
    (hmany : command = .getMulti keys ∨ command = .getsMulti keys) : keys ≠ [] := by
  rintro rfl
  obtain ⟨hdenotes, hvoid⟩ := command_eq_ok_some_iff.1 h
  rcases hmany with rfl | rfl
  · cases hdenotes with
    | getMulti hk =>
      obtain rfl := eq_map_ofKey_of_keysOf_eq_ok hk
      cases hvoid
  · cases hdenotes with
    | getsMulti hk =>
      obtain rfl := eq_map_ofKey_of_keysOf_eq_ok hk
      cases hvoid

end Operation

/-! ## Values -/

/-- The stored form of a value that a client may send, with the word of its flags. Numbers and
objects exclude each other, and short numbers are not packed. -/
structure Encoded.Fit (config : Config) (data : Bytes) (flags : UInt32) : Prop where
  short : config.maxValueLength ≠ 0 → data.length ≤ config.maxValueLength
  flags_mem : flags ∈ ([0, 1, 2, 4, 8, 9, 12] : List UInt32)
  object : flags &&& Encoding.object.bit ≠ 0 → config.enableSerialization = true

namespace Flags

variable {f : Flags}

theorem bits_mem (h : f.compressed = true → f.encoding ≠ .int) :
    f.bits ∈ ([0, 1, 2, 4, 8, 9, 12] : List UInt32) := by
  obtain ⟨encoding, compressed⟩ := f
  revert h
  cases encoding <;> cases compressed <;> decide

/-- Only objects have the bit of objects. -/
theorem encoding_eq_object (h : f.bits &&& Encoding.object.bit ≠ 0) : f.encoding = .object := by
  obtain ⟨encoding, compressed⟩ := f
  revert h
  cases encoding <;> cases compressed <;> decide

end Flags

namespace Codec

theorem encoding_pack (v : Value) (threshold : Nat) :
    (pack v threshold).flags.encoding = v.encoding := by
  rcases pack_cases v threshold with h | h
  all_goals
    rw [h]
    rfl

theorem fit_of_encode {config : Config} {v : Value} {threshold : Nat} {s : Encoded}
    (h : (ofConfig config).encode v threshold = .ok s) :
    Encoded.Fit config s.data s.flags.bits := by
  obtain ⟨hkind, hshort, rfl⟩ := encode_eq_ok_iff.1 h
  refine ⟨?_, Flags.bits_mem ?_, ?_⟩
  · intro hlimit
    rw [length_data_pack]
    by_contra hlong
    exact hshort ⟨hlimit, Nat.lt_of_not_le hlong⟩
  · intro hpacked
    rw [encoding_pack]
    exact (compressed_pack_iff.1 hpacked).1.1
  · intro hbit
    by_contra hoff
    have hencoding := Flags.encoding_eq_object hbit
    rw [encoding_pack] at hencoding
    exact hkind ⟨hencoding, Bool.eq_false_iff.2 hoff⟩

end Codec

/-! ## Commands -/

namespace Log

/-- Among the calls is a read that was answered with this token for the key. -/
def Received (past : List Observation) (k : Key) (t : Token) : Prop :=
  ∃ n command response, ⟨n, .execute command, .responded response⟩ ∈ past ∧
    response.tokenFor? command k = some t

theorem Received.mono {past past' : List Observation} {k : Key} {t : Token}
    (h : Received past k t) (hsub : past ⊆ past') : Received past' k t := by
  obtain ⟨n, command, response, hmem, htoken⟩ := h
  exact ⟨n, command, response, hsub hmem, htoken⟩

end Log

namespace Command

/-- The value that a command stores, with the word of its flags. -/
def stored? : Command → Option (Bytes × UInt32)
  | .store _ _ data _ flags | .cas _ data _ _ flags => some (data, flags)
  | _ => none

/-- The token that a command asks for, with the key of the item. -/
def condition? : Command → Option (Key × Token)
  | .cas k _ token _ _ => some (k, token)
  | _ => none

/-- A command that a client may send after these calls. -/
structure WellFormed (config : Config) (past : List Observation) (command : Command) : Prop where
  keys : ∀ k ∈ command.keys, k.Fit config
  someKey : ∀ keys, command = .getMulti keys ∨ command = .getsMulti keys → keys ≠ []
  stored : ∀ data flags, command.stored? = some (data, flags) → Encoded.Fit config data flags
  condition : ∀ k t, command.condition? = some (k, t) → Received past k t

theorem WellFormed.mono {config : Config} {past past' : List Observation} {command : Command}
    (h : command.WellFormed config past) (hsub : past ⊆ past') :
    command.WellFormed config past' :=
  { h with condition := fun k t hc => (h.condition k t hc).mono hsub }

end Command

/-- An operation has a well-formed command if the tokens that it may use were received. -/
theorem Operation.wellFormed_of_command {config : Config} {token? : Key → Option Token}
    {op : Operation} {command : Command} {past : List Observation}
    (h : op.command config token? = .ok (some command))
    (htokens : ∀ k t, token? k = some t → Received past k t) :
    command.WellFormed config past := by
  have hdenotes := denotes_of_command h
  refine ⟨?_, fun keys hmany => keys_ne_nil_of_command h hmany, ?_, ?_⟩
  · cases hdenotes with
    | getMulti hk | getsMulti hk => exact fun k hmem => fit_of_keyOf (keyOf_of_keysOf hk k hmem)
    | flushAll | stats | version => simp [Command.keys]
    | _ hk =>
      intro a ha
      obtain rfl := List.mem_singleton.1 ha
      exact fit_of_keyOf hk
  · intro data flags hstored
    cases hdenotes with
    | store hk hs | cas hk hs htoken | casPlain hk hs htoken =>
      cases hstored
      exact Codec.fit_of_encode hs
    | _ => cases hstored
  · intro k t hcondition
    cases hdenotes with
    | cas hk hs htoken =>
      cases hcondition
      exact htokens _ _ htoken
    | _ => cases hcondition

/-! ## Runs -/

/-- Every command among the calls is well-formed after the calls that came before it. -/
def Log.WellFormed (config : Config) (past calls : List Observation) : Prop :=
  ∀ before n command outcome after, calls = before ++ ⟨n, .execute command, outcome⟩ :: after →
    command.WellFormed config (past ++ before)

namespace Log.WellFormed

variable {config : Config} {past xs ys calls : List Observation} {command : Command}

theorem append (h : WellFormed config past xs) (h' : WellFormed config (past ++ xs) ys) :
    WellFormed config past (xs ++ ys) := by
  intro before n command outcome after heq
  rcases List.append_eq_append_iff.1 heq with ⟨more, rfl, hys⟩ | ⟨more, hxs, hmore⟩
  · rw [← List.append_assoc]
    exact h' _ _ _ _ _ hys
  · cases more with
    | nil =>
      rw [List.append_nil] at hxs
      have hfirst := h' [] n command outcome after hmore.symm
      rwa [List.append_nil, hxs] at hfirst
    | cons o more =>
      rw [List.cons_append, List.cons.injEq] at hmore
      rw [← hmore.1] at hxs
      exact h before n command outcome more hxs

/-- Commands that are well-formed after earlier calls are so among later ones. -/
theorem of_executes (h : ∀ command ∈ executes calls, command.WellFormed config past) :
    WellFormed config past calls := by
  rintro before n command outcome after rfl
  have hmem : command ∈ executes (before ++ ⟨n, .execute command, outcome⟩ :: after) := by
    simp [Call.command?]
  exact (h command hmem).mono (List.subset_append_left ..)

end Log.WellFormed

namespace Client

variable {σ τ : Type}

/-- A registry holds the tokens that it held before and those it was told of. -/
theorem exists_of_get?_foldl {notices : List Notice} {r : TokenRegistry} {k : Key} {t : Token}
    (h : (notices.foldl Notice.apply r).get? k = some t) :
    r.get? k = some t ∨ ∃ n ∈ notices, n.token? k = some t := by
  induction notices generalizing r with
  | nil => exact .inl h
  | cons n notices ih =>
    rcases ih h with h | ⟨m, hm, ht⟩
    · cases n with
      | responded command response =>
        rw [Notice.get?_apply_responded] at h
        split at h
        · rcases Option.or_eq_some_iff.1 h with h | ⟨-, h⟩
          · exact .inr ⟨_, List.mem_cons_self .., h⟩
          · exact .inl h
        · exact .inl h
      | remembering on => exact .inl h
      | reset =>
        rw [Notice.get?_apply_reset] at h
        cases h
    · exact .inr ⟨m, List.mem_cons_of_mem _ hm, ht⟩

theorem received_of_notice {a : Action} {calls : List Observation} {n : Notice} {k : Key}
    {t : Token} (hn : n ∈ a.notices calls) (ht : n.token? k = some t) : Received calls k t := by
  have hcalls : n ∈ Log.notices calls → Received calls k t := by
    intro hmem
    obtain ⟨⟨m, call, outcome⟩, ho, hnotice⟩ := List.mem_filterMap.1 hmem
    simp only [Observation.notice?] at hnotice
    split at hnotice
    · cases hnotice
      exact ⟨m, _, _, ho, ht⟩
    · cases hnotice
  cases a with
  | setRemembering on | resetTokens =>
    obtain rfl := List.mem_singleton.1 hn
    cases ht
  | _ => exact hcalls hn

/-- Every token that is remembered was received for its key. -/
structure Informed (config : Config) (past : List Observation) (c : Client (Nat × τ)) : Prop where
  config_eq : c.config = config
  received : ∀ k t, c.tokens.get? k = some t → Received past k t

theorem informed_ofConfig (config : Config) :
    Informed config [] (.ofConfig config : Client (Nat × τ)) where
  config_eq := rfl
  received k t h := by
    rw [get?_tokens_ofConfig] at h
    cases h

section

variable {config : Config} {past calls : List Observation} {c c' : Client (Nat × τ)} {a : Action}

theorem Informed.step (h : Informed config past c) (hacted : Acted a c calls c') :
    Informed config (past ++ calls) c' where
  config_eq := hacted.config_eq.trans h.config_eq
  received k t hget := by
    rw [hacted.tokens_eq] at hget
    rcases exists_of_get?_foldl hget with hold | ⟨n, hn, ht⟩
    · exact (h.received k t hold).mono (List.subset_append_left ..)
    · exact (received_of_notice hn ht).mono (List.subset_append_right ..)

theorem Informed.sends (h : Informed config past c) (hacted : Acted a c calls c') :
    Log.WellFormed config past calls := by
  refine .of_executes ?_
  rcases hacted.sends with hnil | ⟨op, command, -, hcommand, hone⟩
  · simp [hnil]
  · rw [h.config_eq] at hcommand
    simpa [hone] using Operation.wellFormed_of_command hcommand h.received

theorem Informed.run (h : Informed config past c) (net : Network σ τ) (actions : List Action)
    (w : Observed σ) :
    ∃ calls, (Client.run net.recorded actions c w).2.2.log = w.log ++ calls ∧
      Log.WellFormed config past calls := by
  induction actions generalizing past c w with
  | nil => exact ⟨[], (List.append_nil _).symm, .of_executes (by simp)⟩
  | cons a actions ih =>
    obtain ⟨calls, hext, hacted⟩ := acted net a c w
    obtain ⟨more, hlog, hmore⟩ := ih (h.step hacted) (c.act net.recorded a w).2.2
    refine ⟨calls ++ more, ?_, (h.sends hacted).append hmore⟩
    rw [← List.append_assoc, ← hext.log]
    exact hlog

end

/-- **A client sends well-formed commands only.** Whatever the network does and whatever the client
is told, each command that it hands over is well-formed, given the calls that it made before: the
keys and the stored value are within the limits, and a token was received for the very key. -/
theorem sends_well_formed (net : Network σ τ) (config : Config) (actions : List Action)
    (w : Observed σ) :
    ∃ calls, (run net.recorded actions (.ofConfig config) w).2.2.log = w.log ++ calls ∧
      ∀ before n command outcome after,
        calls = before ++ ⟨n, .execute command, outcome⟩ :: after →
          command.WellFormed config before := by
  obtain ⟨calls, hlog, hcalls⟩ := (informed_ofConfig config).run net actions w
  exact ⟨calls, hlog, hcalls⟩

end Client

end CacheClient
