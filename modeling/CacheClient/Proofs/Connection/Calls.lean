import CacheClient.Connection
import CacheClient.Network.Recorded

/-!
# The calls of a connection

What a connection does to a network, call by call. On a network under observation each function
of a connection adds calls to the log. The relations below say which calls, in which order and
with which outcomes, and how the connection stands afterwards.

* `Tried`: calls on one session, made one after the other until one fails.
* `Renewed`: a session is opened and set up. If the setup fails, the session is closed.
* `Probed`: the held session is asked whether it is alive, and given up if it is not.
* `Readied`: after that, a new session takes the place of one that was not alive.
* `Executed`: a session is readied and gets the command. If the command fails, it is closed.

One lemma ties each function to its relation. What the calls amount to is then a matter of the
relations alone: which sessions are opened, which commands are sent, and that the failures among the
calls are those that the result reports.
-/

namespace CacheClient

/-! ## Logs -/

def Call.isOpen : Call → Bool
  | .openSession _ => true
  | _ => false

/-- The call changes how a session is set up, and does nothing else. -/
def Call.isSetup : Call → Bool
  | .setTimeout _ | .setNodelay _ | .connect => true
  | _ => false

/-- The command that a call hands over. -/
def Call.command? : Call → Option Command
  | .execute command => some command
  | _ => none

theorem Call.isOpen_of_isSetup {call : Call} (h : call.isSetup) : call.isOpen = false := by
  cases call <;> first | rfl | cases h

theorem Call.command?_of_isSetup {call : Call} (h : call.isSetup) : call.command? = none := by
  cases call <;> first | rfl | cases h

def Outcome.failure? : Outcome → Option IoError
  | .failed e => some e
  | _ => none

/-- The error of a failed attempt. -/
def IoError.of? {α : Type} : Except IoError α → Option IoError
  | .error e => some e
  | .ok _ => none

@[simp] theorem IoError.of?_eq_some {α : Type} {r : Except IoError α} {e : IoError} :
    IoError.of? r = some e ↔ r = .error e := by
  cases r <;> simp [IoError.of?]

namespace Log

/-- How often it was tried to open a session. -/
def opens (calls : List Observation) : Nat := calls.countP (·.call.isOpen)

/-- The commands that were handed over. -/
def executes (calls : List Observation) : List Command := calls.filterMap (·.call.command?)

/-- The errors of calls that failed. -/
def failures (calls : List Observation) : List IoError := calls.filterMap (·.outcome.failure?)

@[simp] theorem opens_nil : opens [] = 0 := rfl

@[simp] theorem opens_cons (o : Observation) (calls : List Observation) :
    opens (o :: calls) = opens calls + if o.call.isOpen then 1 else 0 :=
  List.countP_cons

@[simp] theorem opens_append (xs ys : List Observation) :
    opens (xs ++ ys) = opens xs + opens ys :=
  List.countP_append

@[simp] theorem executes_nil : executes [] = [] := rfl

@[simp] theorem executes_cons (o : Observation) (calls : List Observation) :
    executes (o :: calls) = o.call.command?.toList ++ executes calls := by
  rw [executes, List.filterMap_cons]
  cases o.call.command? <;> rfl

@[simp] theorem executes_append (xs ys : List Observation) :
    executes (xs ++ ys) = executes xs ++ executes ys :=
  List.filterMap_append

@[simp] theorem failures_nil : failures [] = [] := rfl

@[simp] theorem failures_cons (o : Observation) (calls : List Observation) :
    failures (o :: calls) = o.outcome.failure?.toList ++ failures calls := by
  rw [failures, List.filterMap_cons]
  cases o.outcome.failure? <;> rfl

@[simp] theorem failures_append (xs ys : List Observation) :
    failures (xs ++ ys) = failures xs ++ failures ys :=
  List.filterMap_append

end Log

open Log

/-! ## Worlds under observation -/

namespace Observed

variable {σ : Type} {w w' w'' : Observed σ} {xs ys : List Observation}

/-- The world `w` has seen these further calls. -/
structure Extends (w : Observed σ) (calls : List Observation) (w' : Observed σ) : Prop where
  log : w'.log = w.log ++ calls
  attempts : w'.attempts = w.attempts + opens calls

theorem Extends.refl (w : Observed σ) : w.Extends [] w := ⟨(List.append_nil _).symm, rfl⟩

theorem Extends.trans (h : w.Extends xs w') (h' : w'.Extends ys w'') :
    w.Extends (xs ++ ys) w'' where
  log := by rw [h'.log, h.log, List.append_assoc]
  attempts := by rw [h'.attempts, h.attempts, opens_append, Nat.add_assoc]

theorem extends_record (w : Observed σ) (world : σ) (n : Nat) (call : Call) (outcome : Outcome)
    (h : call.isOpen = false) :
    w.Extends [⟨n, call, outcome⟩] (w.record world n call outcome) where
  log := rfl
  attempts := by simp [record, h]

/-- A call that may fail is written down as done or as failed. -/
theorem attempt_cases {α : Type} (n : Nat) (call : Call) (outcome : α → Outcome)
    (act : Attempt σ α) (w : Observed σ) (h : call.isOpen = false) :
    (∃ x w', attempt n call outcome act w = (.ok x, w') ∧
        w.Extends [⟨n, call, outcome x⟩] w') ∨
      ∃ e w', attempt n call outcome act w = (.error e, w') ∧
        w.Extends [⟨n, call, .failed e⟩] w' := by
  rw [attempt]
  split
  · exact .inl ⟨_, _, rfl, extends_record w _ n _ _ h⟩
  · exact .inr ⟨_, _, rfl, extends_record w _ n _ _ h⟩

end Observed

/-! ## Calls until one fails -/

/-- Calls on one session, made one after the other until one fails. -/
inductive Tried (n : Nat) : List Call → List Observation → Except IoError Unit → Prop
  | nil : Tried n [] [] (.ok ())
  | failed (call : Call) (todo : List Call) (e : IoError) :
      Tried n (call :: todo) [⟨n, call, .failed e⟩] (.error e)
  | done {todo calls r} (call : Call) (h : Tried n todo calls r) :
      Tried n (call :: todo) (⟨n, call, .done⟩ :: calls) r

namespace Tried

variable {n : Nat} {todo : List Call} {calls : List Observation} {r : Except IoError Unit}

theorem calls_eq (h : Tried n todo calls (.ok ())) : calls = todo.map (⟨n, ·, .done⟩) := by
  generalize hr : (Except.ok () : Except IoError Unit) = r at h
  induction h with
  | nil => rfl
  | failed call todo e => cases hr
  | done call h ih => rw [ih hr, List.map_cons]

theorem failures_eq (h : Tried n todo calls r) : failures calls = (IoError.of? r).toList := by
  induction h with
  | nil => rfl
  | failed call todo e => rfl
  | done call h ih => exact ih

theorem opens_eq (h : Tried n todo calls r) (hsetup : ∀ call ∈ todo, call.isSetup) :
    opens calls = 0 := by
  induction h with
  | nil => rfl
  | failed call todo e => simp [Call.isOpen_of_isSetup (hsetup call (List.mem_cons_self ..))]
  | done call h ih =>
    have hrest := ih fun c hc => hsetup c (List.mem_cons_of_mem _ hc)
    simp [Call.isOpen_of_isSetup (hsetup call (List.mem_cons_self ..)), hrest]

theorem executes_eq (h : Tried n todo calls r) (hsetup : ∀ call ∈ todo, call.isSetup) :
    executes calls = [] := by
  induction h with
  | nil => rfl
  | failed call todo e => simp [Call.command?_of_isSetup (hsetup call (List.mem_cons_self ..))]
  | done call h ih =>
    have hrest := ih fun c hc => hsetup c (List.mem_cons_of_mem _ hc)
    simp [Call.command?_of_isSetup (hsetup call (List.mem_cons_self ..)), hrest]

end Tried

/-- The attempt makes these calls on a session, until one fails. -/
def Tries {σ : Type} (n : Nat) (todo : List Call) (act : Attempt (Observed σ) Unit) : Prop :=
  ∀ w, ∃ calls, Tried n todo calls (act w).1 ∧ w.Extends calls (act w).2

theorem tries_single {σ : Type} (n : Nat) {call : Call} (act : Attempt σ Unit)
    (h : call.isOpen = false) :
    Tries n [call] (Observed.attempt n call (fun _ => .done) act) := by
  intro w
  rcases Observed.attempt_cases n _ (fun _ => .done) act w h with
    ⟨x, w', heq, hext⟩ | ⟨e, w', heq, hext⟩
  · rw [heq]
    exact ⟨_, .done call .nil, hext⟩
  · rw [heq]
    exact ⟨_, .failed call [] e, hext⟩

theorem Tries.andThen {σ : Type} {n : Nat} {call : Call} {todo : List Call}
    {second : Attempt (Observed σ) Unit} (h : Tries n todo second) (act : Attempt σ Unit)
    (hcall : call.isOpen = false) :
    Tries n (call :: todo)
      ((Observed.attempt n call (fun _ => .done) act).andThen second) := by
  intro w
  rw [Attempt.andThen]
  rcases Observed.attempt_cases n _ (fun _ => .done) act w hcall with
    ⟨x, w', heq, hext⟩ | ⟨e, w', heq, hext⟩
  · obtain ⟨calls, htried, hext'⟩ := h w'
    rw [heq]
    exact ⟨_, .done call htried, hext.trans hext'⟩
  · rw [heq]
    exact ⟨_, .failed call todo e, hext⟩

/-! ## Sessions -/

/-- The calls that set up a session once it is open. -/
def SessionPlan.handshake (plan : SessionPlan) : List Call :=
  .setTimeout plan.connectTimeout :: .connect :: .setTimeout plan.timeout ::
    if plan.nodelay then [.setNodelay true] else []

theorem SessionPlan.isSetup_of_mem_handshake (plan : SessionPlan) :
    ∀ call ∈ plan.handshake, call.isSetup := by
  intro call h
  by_cases hnodelay : plan.nodelay
  · simp only [handshake, hnodelay, if_true, List.mem_cons, List.not_mem_nil, or_false] at h
    rcases h with rfl | rfl | rfl | rfl <;> rfl
  · simp only [handshake, hnodelay, Bool.false_eq_true, if_false, List.mem_cons,
      List.not_mem_nil, or_false] at h
    rcases h with rfl | rfl | rfl <;> rfl

namespace Connection

variable {σ τ : Type}

theorem tries_handshake (net : Network σ τ) (plan : SessionPlan) (s : Nat × τ) :
    Tries s.1 plan.handshake (handshake net.recorded plan s) := by
  rw [handshake, SessionPlan.handshake]
  refine .andThen (.andThen (.andThen ?_ _ rfl) _ rfl) _ rfl
  split
  · exact tries_single s.1 _ rfl
  · exact fun w => ⟨[], .nil, .refl w⟩

theorem without_eq_self {c : Connection τ} (hstate : c.state = .disconnected)
    (hs : c.session = none) : c.without = c := by
  rw [without, ← hstate, ← hs]

/-- The call that closes the held session, if there is one. -/
def closing (c : Connection (Nat × τ)) : List Observation :=
  match c.session with
  | some s => [⟨s.1, .close, .done⟩]
  | none => []

@[simp] theorem opens_closing (c : Connection (Nat × τ)) : opens c.closing = 0 := by
  rw [closing]
  split <;> rfl

@[simp] theorem executes_closing (c : Connection (Nat × τ)) : executes c.closing = [] := by
  rw [closing]
  split <;> rfl

@[simp] theorem failures_closing (c : Connection (Nat × τ)) : failures c.closing = [] := by
  rw [closing]
  split <;> rfl

theorem close_spec (net : Network σ τ) (c : Connection (Nat × τ)) (w : Observed σ) :
    (c.close net.recorded w).1 = c.without ∧
      w.Extends c.closing (c.close net.recorded w).2 := by
  rw [close, closing]
  cases c.session with
  | none => exact ⟨rfl, .refl w⟩
  | some s => exact ⟨rfl, Observed.extends_record w _ s.1 .close .done rfl⟩

/-- A session is opened under the number `n` and set up. -/
inductive Renewed (plan : SessionPlan) (n : Nat) :
    List Observation → Except IoError Unit → Connection (Nat × τ) → Prop
  | refused (e : IoError) :
      Renewed plan n [⟨n, .openSession plan.address, .failed e⟩] (.error e) { plan }
  | broken {calls e} (h : Tried n plan.handshake calls (.error e)) :
      Renewed plan n
        (⟨n, .openSession plan.address, .done⟩ :: (calls ++ [⟨n, .close, .done⟩]))
        (.error e) { plan }
  | completed {calls} (s : τ) (h : Tried n plan.handshake calls (.ok ())) :
      Renewed plan n (⟨n, .openSession plan.address, .done⟩ :: calls) (.ok ())
        { plan, state := .connected, session := some (n, s) }

namespace Renewed

variable {plan : SessionPlan} {n : Nat} {calls : List Observation} {r : Except IoError Unit}
  {c' : Connection (Nat × τ)}

theorem opens_eq (h : Renewed plan n calls r c') : opens calls = 1 := by
  cases h with
  | refused e => rfl
  | broken h | completed s h => simp [h.opens_eq plan.isSetup_of_mem_handshake, Call.isOpen]

theorem executes_eq (h : Renewed plan n calls r c') : executes calls = [] := by
  cases h with
  | refused e => rfl
  | broken h | completed s h => simp [h.executes_eq plan.isSetup_of_mem_handshake, Call.command?]

theorem failures_eq (h : Renewed plan n calls r c') :
    failures calls = (IoError.of? r).toList := by
  cases h with
  | refused e => rfl
  | broken h | completed s h => simp [h.failures_eq, Outcome.failure?]

theorem plan_eq (h : Renewed plan n calls r c') : c'.plan = plan := by cases h <;> rfl

theorem holds (h : Renewed plan n calls (.ok ()) c') :
    c'.state = .connected ∧ ∃ s, c'.session = some (n, s) := by
  cases h with
  | completed s h => exact ⟨rfl, s, rfl⟩

theorem drops {e : IoError} (h : Renewed plan n calls (.error e) c') :
    c'.state = .disconnected ∧ c'.session = none := by
  cases h <;> exact ⟨rfl, rfl⟩

end Renewed

/-- An attempt to open a session takes the next number, also if it fails. -/
theorem open_cases (net : Network σ τ) (address : String) (w : Observed σ) :
    (∃ s w', net.recorded.openSession address w = (.ok (w.attempts, s), w') ∧
        w.Extends [⟨w.attempts, .openSession address, .done⟩] w') ∨
      ∃ e w', net.recorded.openSession address w = (.error e, w') ∧
        w.Extends [⟨w.attempts, .openSession address, .failed e⟩] w' := by
  let numbered : Observed σ := { w with attempts := w.attempts + 1 }
  cases h : net.openSession address w.world with
  | mk opened world =>
    cases opened with
    | ok s =>
      refine .inl ⟨s, numbered.record world w.attempts (.openSession address) .done, ?_, ?_⟩
      · simp only [Network.recorded, h, numbered]
      · exact ⟨rfl, rfl⟩
    | error e =>
      refine .inr ⟨e, numbered.record world w.attempts (.openSession address) (.failed e), ?_, ?_⟩
      · simp only [Network.recorded, h, numbered]
      · exact ⟨rfl, rfl⟩

theorem renew_spec (net : Network σ τ) (c : Connection (Nat × τ)) (w : Observed σ) :
    let out := c.renew net.recorded w
    ∃ calls, Renewed c.plan w.attempts calls out.1 out.2.1 ∧
      w.Extends (c.closing ++ calls) out.2.2 := by
  obtain ⟨hwithout, hclose⟩ := close_spec net c w
  have hattempts : (c.close net.recorded w).2.attempts = w.attempts := by
    rw [hclose.attempts, opens_closing, Nat.add_zero]
  dsimp only
  rw [renew]
  generalize c.close net.recorded w = closed at hwithout hclose hattempts
  obtain ⟨_, v⟩ := closed
  cases hwithout
  dsimp only [without] at hclose hattempts ⊢
  rw [← hattempts]
  rcases open_cases net c.plan.address v with ⟨s, u, hopen, hext⟩ | ⟨e, u, hopen, hext⟩
  · obtain ⟨calls, htried, hext'⟩ := tries_handshake net c.plan (v.attempts, s) u
    rw [hopen]
    dsimp only
    split
    · next t heq =>
      rw [heq] at htried hext'
      exact ⟨_, .completed s htried, hclose.trans (hext.trans hext')⟩
    · next e t heq =>
      rw [heq] at htried hext'
      have hlast := Observed.extends_record t (net.close s t.world) v.attempts .close .done rfl
      exact ⟨_, .broken htried, hclose.trans (hext.trans (hext'.trans hlast))⟩
  · rw [hopen]
    exact ⟨_, .refused e, hclose.trans hext⟩

/-- The held session is asked whether it is alive, and given up if it is not. -/
inductive Probed (c : Connection (Nat × τ)) :
    List Observation → Option (Nat × τ) → Connection (Nat × τ) → Prop
  | alive {s} (hstate : c.state = .connected) (hs : c.session = some s) :
      Probed c [⟨s.1, .isConnected, .connected true⟩] (some s) c
  | dead {s} (hstate : c.state = .connected) (hs : c.session = some s) :
      Probed c [⟨s.1, .isConnected, .connected false⟩] none c.without
  | disconnected (hstate : c.state = .disconnected) : Probed c [] none c
  | absent (hs : c.session = none) : Probed c [] none c.without

theorem probe_spec (net : Network σ τ) (c : Connection (Nat × τ)) (w : Observed σ) :
    let out := c.probe net.recorded w
    ∃ calls, Probed c calls out.1 out.2.1 ∧ w.Extends calls out.2.2 := by
  dsimp only
  cases hstate : c.state with
  | disconnected =>
    simp only [probe, hstate]
    exact ⟨[], .disconnected hstate, .refl w⟩
  | connected =>
    cases hs : c.session with
    | none =>
      simp only [probe, hstate, hs]
      exact ⟨[], .absent hs, .refl w⟩
    | some s =>
      have hext : ∀ alive world, w.Extends [⟨s.1, .isConnected, .connected alive⟩]
          (w.record world s.1 .isConnected (.connected alive)) :=
        fun alive world => Observed.extends_record w world s.1 .isConnected (.connected alive) rfl
      cases hanswer : net.isConnected s.2 w.world with
      | mk alive world =>
        cases alive with
        | true =>
          simp only [probe, hstate, hs, Network.recorded, hanswer]
          exact ⟨_, .alive hstate hs, hext true world⟩
        | false =>
          simp only [probe, hstate, hs, Network.recorded, hanswer]
          exact ⟨_, .dead hstate hs, hext false world⟩

namespace Probed

variable {c c' : Connection (Nat × τ)} {calls : List Observation} {r : Option (Nat × τ)}

theorem opens_eq (h : Probed c calls r c') : opens calls = 0 := by cases h <;> rfl

theorem executes_eq (h : Probed c calls r c') : executes calls = [] := by cases h <;> rfl

theorem failures_eq (h : Probed c calls r c') : failures calls = [] := by cases h <;> rfl

theorem plan_eq (h : Probed c calls r c') : c'.plan = c.plan := by cases h <;> rfl

theorem holds {s : Nat × τ} (h : Probed c calls (some s) c') :
    c'.state = .connected ∧ c'.session = some s := by
  cases h with
  | alive hstate hs => exact ⟨hstate, hs⟩

theorem disconnected_of_none (h : Probed c calls none c') : c'.state = .disconnected := by
  cases h with
  | disconnected hstate => exact hstate
  | _ => rfl

end Probed

/-- The held session is asked whether it is alive. If none is held that is, a session is opened
under the number `n`. -/
inductive Readied (c : Connection (Nat × τ)) (n : Nat) :
    List Observation → Except IoError Unit → Connection (Nat × τ) → Prop
  | alive {calls s c'} (h : Probed c calls (some s) c') : Readied c n calls (.ok ()) c'
  | renewed {xs ys c' r c''} (hprobe : Probed c xs none c') (h : Renewed c.plan n ys r c'') :
      Readied c n (xs ++ (c'.closing ++ ys)) r c''

theorem ensureConnected_spec (net : Network σ τ) (c : Connection (Nat × τ)) (w : Observed σ) :
    let out := c.ensureConnected net.recorded w
    ∃ calls, Readied c w.attempts calls out.1 out.2.1 ∧ w.Extends calls out.2.2 := by
  obtain ⟨xs, hprobe, hext⟩ := probe_spec net c w
  dsimp only
  rw [ensureConnected]
  generalize c.probe net.recorded w = out at hprobe hext
  obtain ⟨r, c', v⟩ := out
  cases r with
  | some s => exact ⟨xs, .alive hprobe, hext⟩
  | none =>
    obtain ⟨ys, hrenewed, hext'⟩ := renew_spec net c' v
    have hattempts : v.attempts = w.attempts := by
      rw [hext.attempts, hprobe.opens_eq, Nat.add_zero]
    have hstate : c'.state = .disconnected := hprobe.disconnected_of_none
    have hplan : c'.plan = c.plan := hprobe.plan_eq
    have heq : c'.connect net.recorded false v = c'.renew net.recorded v := by
      simp [connect, connected, hstate]
    rw [hplan, hattempts] at hrenewed
    dsimp only
    rw [heq]
    exact ⟨_, .renewed hprobe hrenewed, hext.trans hext'⟩

namespace Readied

variable {c c' : Connection (Nat × τ)} {n : Nat} {calls : List Observation}
  {r : Except IoError Unit}

theorem executes_eq (h : Readied c n calls r c') : executes calls = [] := by
  cases h with
  | alive h => exact h.executes_eq
  | renewed hprobe h => simp [hprobe.executes_eq, h.executes_eq]

theorem failures_eq (h : Readied c n calls r c') :
    failures calls = (IoError.of? r).toList := by
  cases h with
  | alive h => exact h.failures_eq
  | renewed hprobe h => simp [hprobe.failures_eq, h.failures_eq]

theorem plan_eq (h : Readied c n calls r c') : c'.plan = c.plan := by
  cases h with
  | alive h => exact h.plan_eq
  | renewed hprobe h => exact h.plan_eq

theorem holds (h : Readied c n calls (.ok ()) c') :
    c'.state = .connected ∧ ∃ s, c'.session = some s := by
  cases h with
  | alive h => exact ⟨h.holds.1, _, h.holds.2⟩
  | renewed hprobe h =>
    obtain ⟨hstate, s, hs⟩ := h.holds
    exact ⟨hstate, _, hs⟩

theorem drops {e : IoError} (h : Readied c n calls (.error e) c') :
    c'.state = .disconnected ∧ c'.session = none := by
  cases h with
  | renewed hprobe h => exact h.drops

end Readied

/-- A session is readied, and the command is handed to it. If the command fails, the session is
closed. -/
inductive Executed (c : Connection (Nat × τ)) (n : Nat) (command : Command) :
    List Observation → Except IoError Response → Connection (Nat × τ) → Prop
  | unready {calls e c'} (h : Readied c n calls (.error e) c') :
      Executed c n command calls (.error e) c'
  | answered {calls c' s} (h : Readied c n calls (.ok ()) c') (hs : c'.session = some s)
      (response : Response) :
      Executed c n command (calls ++ [⟨s.1, .execute command, .responded response⟩])
        (.ok response) c'
  | failed {calls c' s} (h : Readied c n calls (.ok ()) c') (hs : c'.session = some s)
      (e : IoError) :
      Executed c n command
        (calls ++ [⟨s.1, .execute command, .failed e⟩, ⟨s.1, .close, .done⟩])
        (.error e) c'.without

theorem execute_spec (net : Network σ τ) (command : Command) (c : Connection (Nat × τ))
    (w : Observed σ) :
    let out := c.execute net.recorded command w
    ∃ calls, Executed c w.attempts command calls out.1 out.2.1 ∧ w.Extends calls out.2.2 := by
  obtain ⟨calls, hready, hext⟩ := ensureConnected_spec net c w
  dsimp only
  rw [execute]
  generalize c.ensureConnected net.recorded w = out at hready hext
  obtain ⟨r, c', v⟩ := out
  cases r with
  | error e => exact ⟨calls, .unready hready, hext⟩
  | ok _ =>
    obtain ⟨-, s, hs⟩ := hready.holds
    dsimp only at hs hext ⊢
    rw [hs]
    dsimp only
    rcases Observed.attempt_cases s.1 (.execute command) .responded (net.execute s.2 command) v
        rfl with ⟨response, u, hexec, hext'⟩ | ⟨e, u, hexec, hext'⟩
    · have hexec : net.recorded.execute s command v = (.ok response, u) := hexec
      rw [hexec]
      exact ⟨_, .answered hready hs response, hext.trans hext'⟩
    · have hexec : net.recorded.execute s command v = (.error e, u) := hexec
      have hclosing : c'.closing = [⟨s.1, .close, .done⟩] := by simp [closing, hs]
      obtain ⟨hwithout, hclose⟩ := close_spec net c' u
      rw [hexec]
      dsimp only
      rw [hwithout]
      exact ⟨_, .failed hready hs e, hext.trans (hext'.trans (hclosing ▸ hclose))⟩

namespace Executed

variable {c c' : Connection (Nat × τ)} {n : Nat} {command : Command} {calls : List Observation}
  {r : Except IoError Response}

theorem failures_eq (h : Executed c n command calls r c') :
    failures calls = (IoError.of? r).toList := by
  cases h with
  | unready h => exact h.failures_eq
  | answered h hs response =>
    rw [failures_append, h.failures_eq]
    rfl
  | failed h hs e =>
    rw [failures_append, h.failures_eq]
    rfl

theorem holds {response : Response} (h : Executed c n command calls (.ok response) c') :
    c'.state = .connected ∧ ∃ s, c'.session = some s := by
  cases h with
  | answered h hs response => exact h.holds

theorem plan_eq (h : Executed c n command calls r c') : c'.plan = c.plan := by
  cases h with
  | unready h => exact h.plan_eq
  | answered h hs response => exact h.plan_eq
  | failed h hs e => exact h.plan_eq

/-- A command that fails leaves no session behind. -/
theorem drops {e : IoError} (h : Executed c n command calls (.error e) c') :
    c'.state = .disconnected ∧ c'.session = none := by
  cases h with
  | unready h => exact h.drops
  | failed h hs e => exact ⟨rfl, rfl⟩

end Executed

end Connection

end CacheClient
