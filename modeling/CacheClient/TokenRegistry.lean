import CacheClient.Command

/-!
# Remembered tokens

For each key, a client remembers the token that it saw last, so that a later store can ask for
the item to be unchanged. The registry takes up tokens only while it is switched on, and keeps
those it has when it is switched off.
-/

namespace CacheClient

/-- The tokens that a client remembers. -/
structure TokenRegistry where
  enabled : Bool := false
  tokens : KeyMap Token := ∅

namespace TokenRegistry

/-- The token of a key. -/
def get? (r : TokenRegistry) (k : Key) : Option Token := r.tokens[k]?

/-- Take up a token, in place of an older one. -/
def remember (r : TokenRegistry) (k : Key) (t : Token) : TokenRegistry :=
  if r.enabled then { r with tokens := r.tokens.insert k t } else r

theorem get?_remember (r : TokenRegistry) (k a : Key) (t : Token) :
    (r.remember k t).get? a = if r.enabled ∧ k = a then some t else r.get? a := by
  rw [remember]
  split <;> simp_all [get?, KeyMap.getElem?_insert]

/-- Drop the token of a key. -/
def forget (r : TokenRegistry) (k : Key) : TokenRegistry :=
  { r with tokens := r.tokens.erase k }

theorem get?_forget (r : TokenRegistry) (k a : Key) :
    (r.forget k).get? a = if k = a then none else r.get? a :=
  KeyMap.getElem?_erase ..

/-- Drop every token. -/
def reset (r : TokenRegistry) : TokenRegistry := { r with tokens := ∅ }

theorem get?_reset (r : TokenRegistry) (a : Key) : r.reset.get? a = none :=
  Std.ExtTreeMap.getElem?_empty

/-- Switch the registry on or off. -/
def setEnabled (r : TokenRegistry) (on : Bool) : TokenRegistry := { r with enabled := on }

/-- The number of keys with a token. -/
def size (r : TokenRegistry) : Nat := r.tokens.size

/-- Take up several tokens, one after the other. -/
def rememberAll (r : TokenRegistry) (seen : List (Key × Token)) : TokenRegistry :=
  seen.foldl (fun r entry => r.remember entry.1 entry.2) r

end TokenRegistry

end CacheClient
