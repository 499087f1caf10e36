import CacheClient.Proofs.Connection.Calls

/-!
# The life of a session

Which calls a connection may make next depends on how far its session has come (`Stage`), and each
call takes the session a step further (`Stage.Step`):

* without a session, the only call is an attempt to open one;
* an open session gets the calls of its setup, in order;
* a session that has just been set up, or has just said that it is alive, is ready for a command;
* after a command it has to be asked again;
* after a failure it can only be closed.

A session ends by being closed or by the news that it is dead.

**The invariant** (`Stage.Inv`). The log says of the session at hand how it came to its stage. Every
other session that was opened has been released, by its last call and by no call before it. Every
command and every opening in the log was due when it came. Each step keeps this (`Stage.Inv.step`).
-/

namespace CacheClient

open Log

/-! ## What a log says -/

/-- What was done on a session. -/
def Log.on (n : Nat) (log : List Observation) : List Observation :=
  log.filter (·.session == n)

/-- The session was opened. -/
def Opened (n : Nat) (log : List Observation) : Prop :=
  ∃ address, ⟨n, .openSession address, .done⟩ ∈ log

/-- The session is closed, or says that it is dead. -/
def Observation.Ends (o : Observation) : Prop :=
  o.call = .close ∨ o.outcome = .connected false

/-- The last call on the session ended it, and no call before did. -/
def Released (n : Nat) (log : List Observation) : Prop :=
  ∃ calls last, Log.on n log = calls ++ [last] ∧ (∀ o ∈ calls, ¬o.Ends) ∧ last.Ends

/-- The session was found alive, or has answered a command. -/
inductive Observation.IsUse : Observation → Prop
  | alive (n : Nat) : IsUse ⟨n, .isConnected, .connected true⟩
  | answered (n : Nat) (command : Command) (response : Response) :
      IsUse ⟨n, .execute command, .responded response⟩

/-- A session is opened and set up, and every call succeeds. -/
def SessionPlan.setup (plan : SessionPlan) (n : Nat) : List Observation :=
  ⟨n, .openSession plan.address, .done⟩ :: plan.handshake.map (⟨n, ·, .done⟩)

/-- The session was set up in full and has been in use since. -/
def Established (plan : SessionPlan) (n : Nat) (log : List Observation) : Prop :=
  ∃ uses, Log.on n log = plan.setup n ++ uses ∧ ∀ o ∈ uses, o.IsUse

/-- The session was set up in full and has been in use since, and the last call of all was the
last of its setup or has found it alive. -/
def Due (plan : SessionPlan) (n : Nat) (log : List Observation) : Prop :=
  Established plan n log ∧
    (log.getLast? = some ⟨n, .isConnected, .connected true⟩ ∨
      Log.on n log = plan.setup n ∧ ∃ last, log.getLast? = some last ∧ last.session = n)

/-- A command comes only when the session is due for one, and a session is opened under a new
number only when all others have been released. -/
def Lawful (plan : SessionPlan) (before : List Observation) (o : Observation) : Prop :=
  match o.call with
  | .execute _ => Due plan o.session before
  | .openSession address =>
    address = plan.address ∧ Log.on o.session before = [] ∧
      ∀ m, Opened m before → Released m before
  | _ => True

theorem lawful_of_isSetup {plan : SessionPlan} {before : List Observation} {n : Nat} {call : Call}
    {outcome : Outcome} (h : call.isSetup) : Lawful plan before ⟨n, call, outcome⟩ := by
  cases call with
  | openSession address | execute command => cases h
  | _ => trivial

namespace Log

variable {n m : Nat} {log : List Observation} {o : Observation}

@[simp] theorem on_nil (n : Nat) : on n [] = [] := rfl

theorem on_snoc_self (log : List Observation) (o : Observation) :
    on o.session (log ++ [o]) = on o.session log ++ [o] := by
  simp [on]

theorem on_snoc_of_ne (h : o.session ≠ n) (log : List Observation) :
    on n (log ++ [o]) = on n log := by
  simp [on, h]

theorem on_eq_nil (h : ∀ o ∈ log, o.session ≠ n) : on n log = [] := by
  simpa [on] using h

theorem opened_snoc (h : Opened m (log ++ [o])) :
    Opened m log ∨ o.session = m ∧ o.call.isOpen ∧ o.outcome = .done := by
  obtain ⟨address, h⟩ := h
  rcases List.mem_append.1 h with h | h
  · exact .inl ⟨address, h⟩
  · obtain rfl := List.mem_singleton.1 h
    exact .inr ⟨rfl, rfl, rfl⟩

theorem released_snoc_of_ne (h : o.session ≠ m) (hr : Released m log) :
    Released m (log ++ [o]) := by
  rw [Released, on_snoc_of_ne h]
  exact hr

theorem released_snoc_self (h : ∀ x ∈ on o.session log, ¬x.Ends) (ho : o.Ends) :
    Released o.session (log ++ [o]) :=
  ⟨_, o, on_snoc_self log o, h, ho⟩

end Log

theorem Established.snoc {plan : SessionPlan} {log : List Observation} {o : Observation}
    (h : Established plan o.session log) (ho : o.IsUse) :
    Established plan o.session (log ++ [o]) := by
  obtain ⟨uses, hon, huses⟩ := h
  refine ⟨uses ++ [o], ?_, ?_⟩
  · rw [on_snoc_self, hon, List.append_assoc]
  · intro x hx
    rcases List.mem_append.1 hx with hx | hx
    · exact huses x hx
    · exact List.mem_singleton.1 hx ▸ ho

theorem Observation.not_ends_of_isSetup {n : Nat} {call : Call} {outcome : Outcome}
    (hcall : call.isSetup) (houtcome : outcome ≠ .connected false) :
    ¬Observation.Ends ⟨n, call, outcome⟩ := by
  rintro (h | h)
  · cases h
    cases hcall
  · exact houtcome h

theorem SessionPlan.not_ends_of_mem_setup {plan : SessionPlan} {n : Nat} {o : Observation}
    (h : o ∈ plan.setup n) : ¬o.Ends := by
  rcases List.mem_cons.1 h with rfl | h
  · rintro (h | h) <;> cases h
  · obtain ⟨call, hcall, rfl⟩ := List.mem_map.1 h
    exact Observation.not_ends_of_isSetup (plan.isSetup_of_mem_handshake call hcall) nofun

theorem Established.not_ends {plan : SessionPlan} {n : Nat} {log : List Observation}
    (h : Established plan n log) : ∀ o ∈ Log.on n log, ¬o.Ends := by
  obtain ⟨uses, hon, huses⟩ := h
  intro o ho
  rw [hon] at ho
  rcases List.mem_append.1 ho with ho | ho
  · exact SessionPlan.not_ends_of_mem_setup ho
  · rintro (h | h) <;> cases huses o ho <;> cases h

/-! ## Stages -/

/-- How far the session at hand has come. -/
inductive Stage where
  /-- There is none. -/
  | idle
  /-- It is open, and these calls of its setup are still to be made. -/
  | setup (n : Nat) (todo : List Call)
  /-- It has just said that it is alive. -/
  | ready (n : Nat)
  /-- It has just answered a command. -/
  | used (n : Nat)
  /-- A call on it has failed. -/
  | broken (n : Nat)

namespace Stage

/-- The session at hand. -/
def session? : Stage → Option Nat
  | .idle => none
  | .setup n _ | .ready n | .used n | .broken n => some n

/-- The session at hand can be given a command. -/
inductive Ready (n : Nat) : Stage → Prop
  | setup : Ready n (.setup n [])
  | ready : Ready n (.ready n)

/-- The session at hand is one that a connection holds between its calls. -/
inductive Held (n : Nat) : Stage → Prop
  | ready {a} (h : Ready n a) : Held n a
  | used : Held n (.used n)

/-- What a call makes of a stage. The next session to be opened has the number `k`. -/
inductive Step (plan : SessionPlan) (k : Nat) : Stage → Observation → Stage → Prop
  | refused (e : IoError) :
      Step plan k .idle ⟨k, .openSession plan.address, .failed e⟩ .idle
  | opened :
      Step plan k .idle ⟨k, .openSession plan.address, .done⟩ (.setup k plan.handshake)
  | done (n : Nat) (call : Call) (todo : List Call) :
      Step plan k (.setup n (call :: todo)) ⟨n, call, .done⟩ (.setup n todo)
  | failed (n : Nat) (call : Call) (todo : List Call) (e : IoError) :
      Step plan k (.setup n (call :: todo)) ⟨n, call, .failed e⟩ (.broken n)
  | alive {a n} (h : Held n a) :
      Step plan k a ⟨n, .isConnected, .connected true⟩ (.ready n)
  | dead {a n} (h : Held n a) : Step plan k a ⟨n, .isConnected, .connected false⟩ .idle
  | answered {a n} (h : Ready n a) (command : Command) (response : Response) :
      Step plan k a ⟨n, .execute command, .responded response⟩ (.used n)
  | commandFailed {a n} (h : Ready n a) (command : Command) (e : IoError) :
      Step plan k a ⟨n, .execute command, .failed e⟩ (.broken n)
  | closed {a n} (h : Held n a ∨ a = .broken n) : Step plan k a ⟨n, .close, .done⟩ .idle

/-! ## The invariant -/

/-- What the log says of the session at hand. -/
def Fits (plan : SessionPlan) (log : List Observation) : Stage → Prop
  | .idle => True
  | .setup n todo =>
    (∃ made, made ++ todo = plan.handshake ∧
      Log.on n log =
        ⟨n, .openSession plan.address, .done⟩ :: made.map (⟨n, ·, .done⟩)) ∧
    ∃ last, log.getLast? = some last ∧ last.session = n
  | .ready n =>
    Established plan n log ∧ log.getLast? = some ⟨n, .isConnected, .connected true⟩
  | .used n => Established plan n log
  | .broken n => ∀ o ∈ Log.on n log, ¬o.Ends

/-- What a log is like when the session at hand is at the stage `a`. -/
structure Inv (plan : SessionPlan) (a : Stage) (log : List Observation) : Prop where
  /-- Sessions are numbered in the order of the attempts to open one. -/
  numbered : ∀ o ∈ log, o.session < opens log
  known : ∀ n, a.session? = some n → n < opens log
  fits : a.Fits plan log
  released : ∀ n, Opened n log → a.session? = some n ∨ Released n log
  lawful : ∀ before o, before ++ [o] <+: log → Lawful plan before o

theorem inv_nil (plan : SessionPlan) : Inv plan .idle [] where
  numbered := by simp
  known := nofun
  fits := trivial
  released := by
    rintro n ⟨address, h⟩
    cases h
  lawful := by simp

variable {plan : SessionPlan} {a b : Stage} {n : Nat} {log : List Observation} {o : Observation}

theorem Ready.due (h : Ready n a) (hfits : a.Fits plan log) : Due plan n log := by
  cases h with
  | setup =>
    obtain ⟨⟨made, hmade, hon⟩, hlast⟩ := hfits
    rw [List.append_nil] at hmade
    rw [hmade] at hon
    exact ⟨⟨[], by rw [hon, List.append_nil]; rfl, by simp⟩, .inr ⟨hon, hlast⟩⟩
  | ready => exact ⟨hfits.1, .inl hfits.2⟩

theorem Held.established (h : Held n a) (hfits : a.Fits plan log) : Established plan n log := by
  cases h with
  | ready h => exact (h.due hfits).1
  | used => exact hfits

theorem Held.session?_eq (h : Held n a) : a.session? = some n := by
  cases h with
  | ready h => cases h <;> rfl
  | used => rfl

theorem lawful_snoc (h : ∀ before o, before ++ [o] <+: log → Lawful plan before o)
    (ho : Lawful plan log o) : ∀ before x, before ++ [x] <+: log ++ [o] → Lawful plan before x := by
  intro before x hprefix
  rcases List.prefix_concat_iff.1 hprefix with heq | hprefix
  · obtain ⟨rfl, hx⟩ := List.append_inj' heq rfl
    obtain rfl := List.singleton_inj.1 hx
    exact ho
  · exact h before x hprefix

/-- An attempt to open a session keeps the invariant. -/
theorem Inv.opening (h : Inv plan .idle log) (outcome : Outcome)
    (hfits : b.Fits plan (log ++ [⟨opens log, .openSession plan.address, outcome⟩]))
    (hb : b.session? = some (opens log) ∨ b.session? = none ∧ outcome ≠ .done) :
    Inv plan b (log ++ [⟨opens log, .openSession plan.address, outcome⟩]) := by
  have hopens : opens (log ++ [⟨opens log, .openSession plan.address, outcome⟩]) =
      opens log + 1 := by
    simp [Call.isOpen]
  have hreleased : ∀ m, Opened m log → Released m log := by
    intro m hm
    rcases h.released m hm with hsession | hreleased
    · cases hsession
    · exact hreleased
  constructor
  case numbered =>
    intro x hx
    rw [hopens]
    rcases List.mem_append.1 hx with hx | hx
    · exact Nat.lt_succ_of_lt (h.numbered x hx)
    · obtain rfl := List.mem_singleton.1 hx
      exact Nat.lt_succ_self _
  case known =>
    intro m hm
    rw [hopens]
    rcases hb with hb | ⟨hb, -⟩
    · rw [hb] at hm
      cases hm
      exact Nat.lt_succ_self _
    · rw [hb] at hm
      cases hm
  case fits => exact hfits
  case released =>
    intro m hm
    rcases opened_snoc hm with hm | ⟨rfl, -, houtcome⟩
    · obtain ⟨address, hmem⟩ := hm
      refine .inr (released_snoc_of_ne ?_ (hreleased m ⟨address, hmem⟩))
      exact (Nat.ne_of_lt (h.numbered _ hmem)).symm
    · rcases hb with hb | ⟨-, hb⟩
      · exact .inl hb
      · exact absurd houtcome hb
  case lawful =>
    refine lawful_snoc h.lawful ⟨rfl, on_eq_nil ?_, hreleased⟩
    exact fun x hx => Nat.ne_of_lt (h.numbered x hx)

/-- Any other call on the session at hand keeps the invariant if it was due. -/
theorem Inv.call (h : Inv plan a log) (ha : a.session? = some o.session)
    (ho : o.call.isOpen = false) (hdue : Lawful plan log o) (hfits : b.Fits plan (log ++ [o]))
    (hb : b.session? = some o.session ∨ b.session? = none ∧ Released o.session (log ++ [o])) :
    Inv plan b (log ++ [o]) := by
  have hopens : opens (log ++ [o]) = opens log := by simp [ho]
  constructor
  case numbered =>
    intro x hx
    rw [hopens]
    rcases List.mem_append.1 hx with hx | hx
    · exact h.numbered x hx
    · obtain rfl := List.mem_singleton.1 hx
      exact h.known _ ha
  case known =>
    intro m hm
    rw [hopens]
    rcases hb with hb | ⟨hb, -⟩
    · exact h.known m (by rw [ha, ← hb, hm])
    · rw [hb] at hm
      cases hm
  case fits => exact hfits
  case released =>
    intro m hm
    by_cases hsame : o.session = m
    · subst hsame
      exact hb.imp id And.right
    · rcases opened_snoc hm with hm | ⟨heq, -⟩
      · refine .inr (released_snoc_of_ne hsame ((h.released m hm).resolve_left ?_))
        rw [ha]
        exact fun heq => hsame (Option.some.inj heq)
      · exact absurd heq hsame
  case lawful => exact lawful_snoc h.lawful hdue

theorem isSetup_of_fits {call : Call} {todo : List Call}
    (h : (Stage.setup n (call :: todo)).Fits plan log) : call.isSetup := by
  obtain ⟨⟨made, hmade, -⟩, -⟩ := h
  refine plan.isSetup_of_mem_handshake call ?_
  rw [← hmade]
  simp

theorem not_ends_of_fits {todo : List Call} (h : (Stage.setup n todo).Fits plan log) :
    ∀ o ∈ Log.on n log, ¬o.Ends := by
  obtain ⟨⟨made, hmade, hon⟩, -⟩ := h
  intro o ho
  rw [hon] at ho
  have hmem : o ∈ plan.setup n := by
    rw [SessionPlan.setup, ← hmade, List.map_append, ← List.cons_append]
    exact List.mem_append_left _ ho
  exact SessionPlan.not_ends_of_mem_setup hmem

theorem not_ends_snoc (h : ∀ x ∈ Log.on o.session log, ¬x.Ends) (ho : ¬o.Ends) :
    ∀ x ∈ Log.on o.session (log ++ [o]), ¬x.Ends := by
  intro x hx
  rw [on_snoc_self] at hx
  rcases List.mem_append.1 hx with hx | hx
  · exact h x hx
  · exact List.mem_singleton.1 hx ▸ ho

/-- **Each step keeps the invariant.** -/
theorem Inv.step (h : Inv plan a log) (hstep : Step plan (opens log) a o b) :
    Inv plan b (log ++ [o]) := by
  cases hstep with
  | refused e => exact h.opening (.failed e) trivial (.inr ⟨rfl, nofun⟩)
  | opened =>
    refine h.opening .done ⟨⟨[], rfl, ?_⟩, _, List.getLast?_concat, rfl⟩ (.inl rfl)
    rw [on_snoc_self log ⟨opens log, _, _⟩,
      on_eq_nil fun x hx => Nat.ne_of_lt (h.numbered x hx)]
    rfl
  | done n call todo =>
    have hcall := isSetup_of_fits h.fits
    obtain ⟨⟨made, hmade, hon⟩, -⟩ := h.fits
    refine h.call rfl (Call.isOpen_of_isSetup hcall) (lawful_of_isSetup hcall)
      ⟨⟨made ++ [call], ?_, ?_⟩, _, List.getLast?_concat, rfl⟩ (.inl rfl)
    · rw [List.append_assoc]
      exact hmade
    · rw [on_snoc_self log ⟨n, call, .done⟩, hon, List.map_append]
      rfl
  | failed n call todo e =>
    have hcall := isSetup_of_fits h.fits
    refine h.call rfl (Call.isOpen_of_isSetup hcall) (lawful_of_isSetup hcall) ?_ (.inl rfl)
    exact not_ends_snoc (o := ⟨n, call, .failed e⟩) (not_ends_of_fits h.fits)
      (Observation.not_ends_of_isSetup hcall nofun)
  | @alive _ n hheld =>
    refine h.call hheld.session?_eq rfl trivial ⟨?_, List.getLast?_concat⟩ (.inl rfl)
    exact (hheld.established h.fits).snoc (.alive n)
  | @dead _ n hheld =>
    refine h.call hheld.session?_eq rfl trivial trivial (.inr ⟨rfl, ?_⟩)
    exact released_snoc_self (hheld.established h.fits).not_ends (.inr rfl)
  | @answered _ n hready command response =>
    have hdue := hready.due h.fits
    refine h.call (Held.ready hready).session?_eq rfl hdue ?_ (.inl rfl)
    exact hdue.1.snoc (.answered n command response)
  | @commandFailed _ n hready command e =>
    have hdue := hready.due h.fits
    refine h.call (Held.ready hready).session?_eq rfl hdue ?_ (.inl rfl)
    exact not_ends_snoc (o := ⟨n, .execute command, .failed e⟩) hdue.1.not_ends
      (by rintro (h | h) <;> cases h)
  | @closed _ n hheld =>
    have hends : ∀ o ∈ Log.on n log, ¬o.Ends := by
      rcases hheld with hheld | rfl
      · exact (hheld.established h.fits).not_ends
      · exact h.fits
    have hsession : a.session? = some n := by
      rcases hheld with hheld | rfl
      · exact hheld.session?_eq
      · rfl
    exact h.call hsession rfl trivial trivial
      (.inr ⟨rfl, released_snoc_self (o := ⟨n, .close, .done⟩) hends (.inl rfl)⟩)

end Stage

end CacheClient
