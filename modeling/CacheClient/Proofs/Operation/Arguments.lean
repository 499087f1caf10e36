import CacheClient.Proofs.Codec.Packing
import CacheClient.Proofs.Operation

/-!
# Arguments that are refused

Whether an operation is refused depends on its arguments and the configuration alone, not on the
tokens that a client remembers. The first source that is no key is at fault; if there is none, it
is the value, if that cannot be stored (`fault?`). An operation that reads many items but asks for
none is void (`isVoid`). These are the operations without a command: `command_of_fault`,
`command_of_isVoid` and `exists_command` say for each operation which of the three it is. The
command of any other is the one that the operation denotes (`command_eq_ok_some_iff`).
-/

namespace CacheClient

namespace Operation

/-- The value that an operation hands over, and how it is to be stored. -/
def value? : Operation → Option (Value × StoreSettings)
  | .store _ _ v options | .cas _ v options => some (v, options)
  | _ => none

/-- What is wrong with the arguments: the first source that is no key, or else the value. -/
def fault? (config : Config) (op : Operation) : Option Error :=
  (op.sources.findSome? fun source => errorOf? (keyOf config source)) <|>
    op.value?.bind fun (v, options) => errorOf? (encodedOf config v options)

/-- Many items are to be read, but none is asked for. -/
def isVoid : Operation → Bool
  | .getMulti [] | .getsMulti [] => true
  | _ => false

variable {config : Config} {token? : Key → Option Token} {op : Operation}

/-! ## Keys -/

theorem keysOf_of_fault {sources : List Key.Source} {e : Error}
    (h : (sources.findSome? fun source => errorOf? (keyOf config source)) = some e) :
    keysOf config sources = .error e := by
  induction sources with
  | nil => cases h
  | cons source sources ih =>
    cases hk : keyOf config source with
    | error e' => simp_all [errorOf?, keysOf, bind, Except.bind]
    | ok k => simp_all [errorOf?, keysOf, bind, Except.bind]

theorem exists_keysOf {sources : List Key.Source}
    (h : (sources.findSome? fun source => errorOf? (keyOf config source)) = none) :
    ∃ keys, keysOf config sources = .ok keys := by
  induction sources with
  | nil => exact ⟨[], rfl⟩
  | cons source sources ih =>
    cases hk : keyOf config source with
    | error e' => simp_all [errorOf?]
    | ok k =>
      obtain ⟨keys, hkeys⟩ := ih (by simp_all [errorOf?])
      exact ⟨k :: keys, by simp [keysOf, hk, hkeys, bind, Except.bind, pure, Except.pure]⟩

/-! ## Commands -/

theorem command_of_fault {e : Error} (h : op.fault? config = some e) :
    op.command config token? = .error e := by
  cases op with
  | store mode source v options | cas source v options =>
    cases hk : keyOf config source <;> cases hs : encodedOf config v options <;>
      simp_all [fault?, sources, value?, errorOf?, command, bind, Except.bind]
  | getMulti sources | getsMulti sources =>
    have hsome : (sources.findSome? fun source => errorOf? (keyOf config source)) = some e := by
      simpa [fault?, Operation.sources, value?] using h
    simp [command, keysOf_of_fault hsome, bind, Except.bind]
  | get source | gets source | incr source amount | decr source amount | delete source =>
    cases hk : keyOf config source <;>
      simp_all [fault?, sources, value?, errorOf?, command, bind, Except.bind]
  | flushAll | stats | version => cases h

theorem command_of_isVoid (h : op.isVoid) : op.command config token? = .ok none := by
  cases op with
  | getMulti sources | getsMulti sources =>
    cases sources with
    | nil => rfl
    | cons source sources => cases h
  | _ => cases h

theorem Denotes.command_eq {command : Command} (h : Denotes config token? op command)
    (hvoid : op.isVoid = false) : op.command config token? = .ok (some command) := by
  cases h with
  | @getMulti sources keys hk | @getsMulti sources keys hk =>
    have hne : keys ≠ [] := by
      rintro rfl
      obtain rfl := eq_map_ofKey_of_keysOf_eq_ok hk
      cases hvoid
    simp [Operation.command, hk, hne, bind, Except.bind, pure, Except.pure]
  | cas hk hs htoken | casPlain hk hs htoken =>
    simp [Operation.command, hk, hs, htoken, bind, Except.bind, pure, Except.pure]
  | store hk hs => simp [Operation.command, hk, hs, bind, Except.bind, pure, Except.pure]
  | flushAll | stats | version => rfl
  | _ hk => simp [Operation.command, hk, bind, Except.bind, pure, Except.pure]

theorem command_eq_ok_some_iff {command : Command} :
    op.command config token? = .ok (some command) ↔
      Denotes config token? op command ∧ op.isVoid = false := by
  refine ⟨fun h => ⟨denotes_of_command h, ?_⟩, fun h => h.1.command_eq h.2⟩
  cases hvoid : op.isVoid with
  | false => rfl
  | true => cases (command_of_isVoid hvoid).symm.trans h

theorem exists_command (hfault : op.fault? config = none) (hvoid : op.isVoid = false)
    (token? : Key → Option Token) :
    ∃ command, op.command config token? = .ok (some command) := by
  cases op with
  | store mode source v options | cas source v options =>
    cases hk : keyOf config source <;> cases hs : encodedOf config v options <;>
      simp_all [fault?, sources, value?, errorOf?, command, bind, Except.bind, pure, Except.pure]
  | getMulti sources =>
    have hnone : (sources.findSome? fun source => errorOf? (keyOf config source)) = none := by
      simpa [fault?, Operation.sources, value?] using hfault
    obtain ⟨keys, hkeys⟩ := exists_keysOf hnone
    exact ⟨_, (Denotes.getMulti hkeys).command_eq hvoid⟩
  | getsMulti sources =>
    have hnone : (sources.findSome? fun source => errorOf? (keyOf config source)) = none := by
      simpa [fault?, Operation.sources, value?] using hfault
    obtain ⟨keys, hkeys⟩ := exists_keysOf hnone
    exact ⟨_, (Denotes.getsMulti hkeys).command_eq hvoid⟩
  | get source | gets source | incr source amount | decr source amount | delete source =>
    cases hk : keyOf config source <;>
      simp_all [fault?, sources, value?, errorOf?, command, bind, Except.bind, pure, Except.pure]
  | flushAll | stats | version => exact ⟨_, rfl⟩

theorem fault?_eq_none_of_isVoid (h : op.isVoid) : op.fault? config = none := by
  cases op with
  | getMulti sources | getsMulti sources =>
    cases sources with
    | nil => rfl
    | cons source sources => cases h
  | _ => cases h

/-- An operation is refused for what is wrong with its arguments, and for nothing else. -/
theorem fault?_of_command {e : Error} (h : op.command config token? = .error e) :
    op.fault? config = some e := by
  cases hfault : op.fault? config with
  | some e' =>
    cases (command_of_fault hfault).symm.trans h
    rfl
  | none =>
    cases hvoid : op.isVoid with
    | true => cases (command_of_isVoid hvoid).symm.trans h
    | false =>
      obtain ⟨command, hcommand⟩ := exists_command hfault hvoid token?
      cases hcommand.symm.trans h

/-! ## Causes -/

theorem exists_cause_of_keyOf {source : Key.Source} {e : Error}
    (h : keyOf config source = .error e) : ∃ cause, e = .key cause := by
  rw [keyOf] at h
  split at h <;> cases h
  exact ⟨_, rfl⟩

theorem exists_cause_of_encodedOf {v : Value} {options : StoreSettings} {e : Error}
    (h : encodedOf config v options = .error e) : ∃ cause, e = .value cause := by
  rcases Codec.encode_eq_error_iff.1 h with ⟨-, rfl⟩ | ⟨-, -, rfl⟩
  · exact ⟨_, rfl⟩
  · exact ⟨_, rfl⟩

/-- It is a key or the value that is at fault. -/
theorem exists_cause_of_fault {e : Error} (h : op.fault? config = some e) :
    (∃ cause, e = .key cause) ∨ ∃ cause, e = .value cause := by
  rw [fault?, Option.orElse_eq_orElse, Option.orElse_eq_or, Option.or_eq_some_iff] at h
  rcases h with h | ⟨-, h⟩
  · obtain ⟨source, -, hkey⟩ := List.exists_of_findSome?_eq_some h
    exact .inl (exists_cause_of_keyOf (errorOf?_eq_some.1 hkey))
  · obtain ⟨⟨v, options⟩, -, hvalue⟩ := Option.bind_eq_some_iff.1 h
    exact .inr (exists_cause_of_encodedOf (errorOf?_eq_some.1 hvalue))

/-- What is wrong with arguments has nothing to do with items. -/
theorem isUnreadable_of_command {e : Error} (h : op.command config token? = .error e) :
    e.isUnreadable = false := by
  rcases exists_cause_of_fault (fault?_of_command h) with ⟨_, rfl⟩ | ⟨_, rfl⟩ <;> rfl

/-- What is wrong with arguments has nothing to do with the transport. -/
theorem isTransport_of_command {e : Error} (h : op.command config token? = .error e) :
    e.isTransport = false := by
  rcases exists_cause_of_fault (fault?_of_command h) with ⟨_, rfl⟩ | ⟨_, rfl⟩ <;> rfl

end Operation

end CacheClient
