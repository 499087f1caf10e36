import Mathlib.Data.List.Basic
import Mathlib.Data.List.Induction
import CacheClient.Proofs.Client
import CacheClient.Proofs.Operation.Responses

/-!
# What matters to remembered tokens

A **notice** is a response to a command, or being told to remember tokens from now on, to do so no
longer, or to forget them all. A registry takes up one notice after the other (`Notice.apply`).

**The latest token.** A response counts for a key if it brings a token for it at a time when tokens
are remembered. The token of a key is the one of the last notice that counts, unless everything was
forgotten since (`Latest`). The recursion of this property over the notices (`latest_snoc_iff`) is
that of the fold, so the two agree (`get?_foldl_apply`).
-/

namespace CacheClient

/-! ## Tokens in responses -/

/-- The token that a response to a command brings for a key: that of the item, if the command reads
this key with its token, or that of the entry under the key, if the command reads several. -/
def Response.tokenFor? (r : Response) (command : Command) (k : Key) : Option Token :=
  match command, r with
  | .gets a, .item (some i) => if a = k then i.token else none
  | .getsMulti _, .items found => found[k]?.bind (·.token)
  | _, _ => none

namespace Response

variable {r : Response} {command : Command} {k : Key} {t : Token}

theorem mem_tokensFor_iff : (k, t) ∈ r.tokensFor command ↔ r.tokenFor? command k = some t := by
  cases command with
  | gets a =>
    cases r with
    | item i? =>
      cases i? with
      | none => simp [tokensFor, tokenFor?]
      | some i =>
        by_cases h : a = k
        · simp [tokensFor, tokenFor?, h]
        · simp [tokensFor, tokenFor?, h]
    | _ => simp [tokensFor, tokenFor?]
  | getsMulti keys =>
    cases r with
    | items found =>
      simp only [tokensFor, tokenFor?, List.mem_filterMap, Option.map_eq_some_iff, Prod.exists,
        Option.bind_eq_some_iff, Std.ExtTreeMap.mem_toList_iff_getElem?_eq_some]
      constructor
      · rintro ⟨a, i, hi, _, ht, heq⟩
        cases heq
        exact ⟨i, hi, ht⟩
      · rintro ⟨i, hi, ht⟩
        exact ⟨k, i, hi, t, ht, rfl⟩
    | _ => simp [tokensFor, tokenFor?]
  | _ => simp [tokensFor, tokenFor?]

/-- A response of the wrong shape brings no tokens. -/
theorem tokensFor_eq_nil (h : command.expects r = false) : r.tokensFor command = [] := by
  unfold tokensFor
  split
  · cases h
  · cases h
  · rfl

end Response

namespace TokenRegistry

variable {r : TokenRegistry} {k : Key} {t : Token} {seen : List (Key × Token)}

theorem rememberAll_of_disabled (h : r.enabled = false) (seen : List (Key × Token)) :
    r.rememberAll seen = r := by
  induction seen with
  | nil => rfl
  | cons entry seen ih =>
    have hhead : r.remember entry.1 entry.2 = r := by simp [remember, h]
    show (r.remember entry.1 entry.2).rememberAll seen = r
    rw [hhead, ih]

theorem get?_rememberAll_of_mem (henabled : r.enabled = true) (hmem : (k, t) ∈ seen)
    (hsame : ∀ t', (k, t') ∈ seen → t' = t) : (r.rememberAll seen).get? k = some t := by
  induction seen generalizing r with
  | nil => cases hmem
  | cons entry seen ih =>
    show ((r.remember entry.1 entry.2).rememberAll seen).get? k = some t
    by_cases hlater : (k, t) ∈ seen
    · refine ih ((enabled_remember _ _ _).trans henabled) hlater ?_
      intro t' ht'
      exact hsame t' (List.mem_cons_of_mem _ ht')
    · obtain rfl : entry = (k, t) := by
        rcases List.mem_cons.1 hmem with h | h
        · exact h.symm
        · exact absurd h hlater
      have hrest : ∀ e ∈ seen, e.1 ≠ k := by
        rintro ⟨a, t'⟩ he rfl
        obtain rfl := hsame t' (List.mem_cons_of_mem _ he)
        exact hlater he
      rw [get?_rememberAll_of_forall_ne hrest, get?_remember, if_pos ⟨henabled, rfl⟩]

/-- What is remembered after a response. -/
theorem get?_rememberAll_tokensFor (r : TokenRegistry) (response : Response) (command : Command)
    (k : Key) :
    (r.rememberAll (response.tokensFor command)).get? k =
      if r.enabled then (response.tokenFor? command k).or (r.get? k) else r.get? k := by
  cases henabled : r.enabled with
  | false => rw [rememberAll_of_disabled henabled, if_neg (by simp)]
  | true =>
    rw [if_pos rfl]
    cases ht : response.tokenFor? command k with
    | none =>
      refine get?_rememberAll_of_forall_ne ?_ r
      rintro ⟨a, t⟩ hmem rfl
      cases ht.symm.trans (Response.mem_tokensFor_iff.1 hmem)
    | some t =>
      refine get?_rememberAll_of_mem henabled (Response.mem_tokensFor_iff.2 ht) ?_
      intro t' hmem
      exact Option.some.inj ((Response.mem_tokensFor_iff.1 hmem).symm.trans ht)

end TokenRegistry

namespace Client

/-! ## Notices -/

/-- Something that matters to the tokens of a client. -/
inductive Notice where
  /-- A command was responded to. -/
  | responded (command : Command) (response : Response)
  /-- Tokens are remembered from now on, or no longer. -/
  | remembering (on : Bool)
  /-- Every token is forgotten. -/
  | reset

namespace Notice

/-- The tokens that a client remembers after a notice. -/
def apply (r : TokenRegistry) : Notice → TokenRegistry
  | .responded command response => r.rememberAll (response.tokensFor command)
  | .remembering on => r.setEnabled on
  | .reset => r.reset

theorem get?_apply_responded (r : TokenRegistry) (command : Command) (response : Response)
    (k : Key) :
    (apply r (.responded command response)).get? k =
      if r.enabled then (response.tokenFor? command k).or (r.get? k) else r.get? k :=
  TokenRegistry.get?_rememberAll_tokensFor r response command k

theorem get?_apply_remembering (r : TokenRegistry) (on : Bool) (k : Key) :
    (apply r (.remembering on)).get? k = r.get? k := rfl

theorem get?_apply_reset (r : TokenRegistry) (k : Key) : (apply r .reset).get? k = none :=
  TokenRegistry.get?_reset r k

/-- The token that a notice brings for a key. -/
def token? (k : Key) : Notice → Option Token
  | .responded command response => response.tokenFor? command k
  | .remembering _ | .reset => none

/-- Whether tokens are remembered after a notice. -/
def switch (on : Bool) : Notice → Bool
  | .remembering on => on
  | .responded .. | .reset => on

/-- Whether tokens are remembered after some notices. -/
def switched (initially : Bool) (past : List Notice) : Bool := past.foldl switch initially

/-- A notice that comes after others counts for a key: it brings a token, and tokens are
remembered. -/
def Counts (initially : Bool) (k : Key) (past : List Notice) (n : Notice) (t : Token) : Prop :=
  switched initially past = true ∧ n.token? k = some t

/-- Of the notices that count for a key, the last brings the token, and nothing was forgotten
since. -/
def Latest (initially : Bool) (k : Key) (t : Token) (notices : List Notice) : Prop :=
  ∃ before n after, notices = before ++ n :: after ∧ Counts initially k before n t ∧
    .reset ∉ after ∧
    ∀ between m rest t', after = between ++ m :: rest →
      ¬Counts initially k (before ++ n :: between) m t'

variable {initially : Bool} {k : Key} {t : Token} {past : List Notice} {n : Notice}

theorem latest_of_counts (h : Counts initially k past n t) :
    Latest initially k t (past ++ [n]) := by
  refine ⟨past, n, [], rfl, h, by simp, ?_⟩
  intro between m rest t' hnil
  simp at hnil

theorem Latest.snoc (h : Latest initially k t past) (hreset : n ≠ .reset)
    (hnot : ∀ t', ¬Counts initially k past n t') : Latest initially k t (past ++ [n]) := by
  obtain ⟨before, m, after, rfl, hcounts, hkept, hlast⟩ := h
  refine ⟨before, m, after ++ [n], by simp, hcounts, ?_, ?_⟩
  · simp [hkept, Ne.symm hreset]
  · intro between m' rest t' heq
    rcases List.eq_nil_or_concat' rest with rfl | ⟨rest, last, rfl⟩
    · obtain ⟨rfl, hlast'⟩ := List.append_inj' heq rfl
      cases hlast'
      exact hnot t'
    · have heq : after ++ [n] = (between ++ m' :: rest) ++ [last] := by simpa using heq
      exact hlast between m' rest t' (List.append_inj' heq rfl).1

/-- The last notice counts, or it neither counts nor forgets anything and the latest token is that
of the notices before. -/
theorem latest_snoc_iff :
    Latest initially k t (past ++ [n]) ↔
      Counts initially k past n t ∨
        n ≠ .reset ∧ (∀ t', ¬Counts initially k past n t') ∧ Latest initially k t past := by
  constructor
  · rintro ⟨before, m, after, heq, hcounts, hkept, hlast⟩
    rcases List.eq_nil_or_concat' after with rfl | ⟨after, last, rfl⟩
    · obtain ⟨rfl, hn⟩ := List.append_inj' heq rfl
      cases hn
      exact .inl hcounts
    · have heq : past ++ [n] = (before ++ m :: after) ++ [last] := by simpa using heq
      obtain ⟨rfl, hn⟩ := List.append_inj' heq rfl
      cases hn
      refine .inr ⟨?_, fun t' => hlast after n [] t' rfl, before, m, after, rfl, hcounts, ?_, ?_⟩
      · rintro rfl
        simp at hkept
      · intro hmem
        exact hkept (List.mem_append_left _ hmem)
      · intro between m' rest t' hafter
        exact hlast between m' (rest ++ [n]) t' (by simp [hafter])
  · rintro (h | ⟨hreset, hnot, h⟩)
    · exact latest_of_counts h
    · exact h.snoc hreset hnot

theorem enabled_foldl_apply (notices : List Notice) (r : TokenRegistry) :
    (notices.foldl apply r).enabled = switched r.enabled notices := by
  induction notices generalizing r with
  | nil => rfl
  | cons n notices ih =>
    have hhead : (n.apply r).enabled = n.switch r.enabled := by
      cases n with
      | responded command response => exact TokenRegistry.enabled_rememberAll r _
      | _ => rfl
    rw [List.foldl_cons, ih, hhead]
    rfl

/-- **The fold of the notices holds the latest tokens**, if there were none before. -/
theorem get?_foldl_apply {r : TokenRegistry} (hnone : ∀ k, r.get? k = none)
    (notices : List Notice) (k : Key) (t : Token) :
    (notices.foldl apply r).get? k = some t ↔ Latest r.enabled k t notices := by
  induction notices using List.reverseRecOn with
  | nil => simp [hnone, Latest]
  | append_singleton past n ih =>
    have henabled := enabled_foldl_apply past r
    rw [List.foldl_append, List.foldl_cons, List.foldl_nil, latest_snoc_iff]
    generalize past.foldl apply r = r' at ih henabled
    cases n with
    | responded command response =>
      rw [get?_apply_responded, henabled]
      by_cases hon : switched r.enabled past = true
      · cases htoken : response.tokenFor? command k <;> simp [Counts, token?, hon, htoken, ih]
      · simp [Counts, hon, ih]
    | remembering on =>
      rw [get?_apply_remembering, ih]
      simp [Counts, token?]
    | reset =>
      rw [get?_apply_reset]
      simp [Counts, token?]

end Notice

end Client

end CacheClient
