import CacheClient.Proofs.Client.Calls
import CacheClient.Proofs.Connection.Lifecycle
import CacheClient.Proofs.Operation.Arguments

/-!
# One command at most

An operation hands over at most one command, the one that it denotes, and opens at most one
session for it. Nothing is sent twice, also not when a dead session had to be replaced on the way.
The command is handed over exactly when the arguments are in order and there is a session to hand
it to: the held one has said that it is alive, or a new one was set up in full (`Reached`).

An operation in order does not give up before it has looked for a session (`Sought`): it asks the
held one, and opens another unless that one is alive. What keeps it from handing over its command
is a call for that session which has failed (`Log.Barred`).

An operation whose arguments are refused, or that asks for nothing, makes no call at all and leaves
the client as it was.

Main result: `sends_at_most_once`.
-/

namespace CacheClient

open Log

/-! ## Sessions that are set up in full -/

/-- How many calls took a session further: all that succeeded, except closing. -/
def Log.advances (calls : List Observation) : Nat :=
  calls.countP fun o => o.outcome == .done && o.call != .close

@[simp] theorem Log.advances_nil : advances [] = 0 := rfl

@[simp] theorem Log.advances_cons (o : Observation) (calls : List Observation) :
    advances (o :: calls) =
      advances calls + if o.outcome == .done && o.call != .close then 1 else 0 :=
  List.countP_cons

@[simp] theorem Log.advances_append (xs ys : List Observation) :
    advances (xs ++ ys) = advances xs + advances ys :=
  List.countP_append

/-- A call to open a session or to set one up has failed. -/
def Log.Barred (calls : List Observation) : Prop :=
  ∃ o ∈ calls, (o.call.isOpen ∨ o.call.isSetup) ∧ ∃ e, o.outcome = .failed e

theorem Log.Barred.of_subset {xs ys : List Observation} (h : Barred xs) (hsub : xs ⊆ ys) :
    Barred ys := by
  obtain ⟨o, ho, hfailed⟩ := h
  exact ⟨o, hsub ho, hfailed⟩

namespace Tried

variable {n : Nat} {todo : List Call} {calls : List Observation} {e : IoError}

theorem call_mem {r : Except IoError Unit} (h : Tried n todo calls r) :
    ∀ o ∈ calls, o.call ∈ todo := by
  induction h with
  | nil => simp
  | failed call todo e => simp
  | done call h ih =>
    intro o ho
    rcases List.mem_cons.1 ho with rfl | ho
    · exact List.mem_cons_self ..
    · exact List.mem_cons_of_mem _ (ih o ho)

/-- A failure stops the calls before the last. -/
theorem advances_lt (h : Tried n todo calls (.error e)) : advances calls < todo.length := by
  generalize hr : (Except.error e : Except IoError Unit) = r at h
  induction h with
  | nil => cases hr
  | failed call todo e => simp
  | done call h ih =>
    have hrest := ih hr
    simp only [advances_cons, List.length_cons]
    split <;> omega

theorem barred (h : Tried n todo calls (.error e)) (hsetup : ∀ call ∈ todo, call.isSetup) :
    Barred calls := by
  generalize hr : (Except.error e : Except IoError Unit) = r at h
  induction h with
  | nil => cases hr
  | failed call todo e =>
    exact ⟨_, List.mem_singleton_self _, .inr (hsetup call (List.mem_cons_self ..)), e, rfl⟩
  | done call h ih =>
    have hrest := ih (fun c hc => hsetup c (List.mem_cons_of_mem _ hc)) hr
    exact hrest.of_subset (List.subset_cons_self ..)

end Tried

theorem SessionPlan.advances_setup (plan : SessionPlan) (n : Nat) :
    advances (plan.setup n) = plan.handshake.length + 1 := by
  have hall : ∀ o ∈ plan.setup n, o.outcome == .done && o.call != .close := by
    intro o ho
    rcases List.mem_cons.1 ho with rfl | ho
    · rfl
    · obtain ⟨call, hcall, rfl⟩ := List.mem_map.1 ho
      have hsetup := plan.isSetup_of_mem_handshake call hcall
      cases call <;> first | rfl | cases hsetup
  rw [advances, List.countP_eq_length.2 hall, setup, List.length_cons, List.length_map]

namespace Connection

variable {τ : Type} {c c' : Connection (Nat × τ)} {n : Nat} {calls : List Observation}

/-- The held session has said that it is alive. -/
def Alive (c : Connection (Nat × τ)) (calls : List Observation) : Prop :=
  ∃ s, c.session = some s ∧ ⟨s.1, .isConnected, .connected true⟩ ∈ calls

/-- There is a session to be used: the held one has said that it is alive, or a new one was set up
in full. -/
def Reached (c : Connection (Nat × τ)) (calls : List Observation) : Prop :=
  c.Alive calls ∨ ∃ n, c.plan.setup n <:+: calls

/-- How a session is looked for. -/
structure Sought (c : Connection (Nat × τ)) (calls : List Observation) : Prop where
  /-- A held session is asked before anything else is done. -/
  asked : c.connected = true → ∀ s, c.session = some s →
    ∃ alive rest, calls = ⟨s.1, .isConnected, .connected alive⟩ :: rest
  /-- Another is opened unless the held one has said that it is alive. -/
  opened : opens calls = 0 ∧ c.Alive calls ∨ opens calls = 1 ∧ ¬c.Alive calls

theorem Reached.append (h : c.Reached calls) (more : List Observation) :
    c.Reached (calls ++ more) := by
  rcases h with ⟨s, hs, hmem⟩ | ⟨n, hinfix⟩
  · exact .inl ⟨s, hs, List.mem_append_left _ hmem⟩
  · exact .inr ⟨n, hinfix.trans (List.prefix_append _ _).isInfix⟩

/-- What is done with a session does not matter to how it was found. -/
theorem Sought.append (h : c.Sought calls) {more : List Observation}
    (hmore : ∀ o ∈ more, o.call.isOpen = false ∧ o.call ≠ .isConnected) :
    c.Sought (calls ++ more) where
  asked hconnected s hs := by
    obtain ⟨alive, rest, rfl⟩ := h.asked hconnected s hs
    exact ⟨alive, rest ++ more, rfl⟩
  opened := by
    have hopens : opens more = 0 :=
      List.countP_eq_zero.2 fun o ho => by simp [(hmore o ho).1]
    have halive : c.Alive (calls ++ more) ↔ c.Alive calls := by
      refine exists_congr fun s => and_congr_right fun _ => ?_
      rw [List.mem_append, or_iff_left]
      exact fun hmem => (hmore _ hmem).2 rfl
    rw [opens_append, hopens, Nat.add_zero, halive]
    exact h.opened

theorem Renewed.reached {xs : List Observation}
    (h : Renewed c.plan n calls (.ok ()) c') : c.Reached (xs ++ calls) := by
  cases h with
  | completed s h =>
    rw [h.calls_eq]
    exact .inr ⟨n, (List.suffix_append _ _).isInfix⟩

theorem Readied.reached (h : Readied c n calls (.ok ()) c') : c.Reached calls := by
  cases h with
  | alive h =>
    cases h with
    | alive hstate hs => exact .inl ⟨_, hs, List.mem_singleton_self _⟩
  | renewed hprobe h =>
    rw [← List.append_assoc]
    exact h.reached

theorem Renewed.not_alive {plan : SessionPlan} {r : Except IoError Unit}
    (h : Renewed plan n calls r c') : ∀ o ∈ calls, o.call ≠ .isConnected := by
  have htried : ∀ {xs r}, Tried n plan.handshake xs r → ∀ o ∈ xs, o.call ≠ .isConnected := by
    intro xs r h o ho heq
    have hsetup : o.call.isSetup := plan.isSetup_of_mem_handshake _ (h.call_mem o ho)
    rw [heq] at hsetup
    cases hsetup
  cases h with
  | refused e => simp
  | broken h | completed s h =>
    have hcalls := htried h
    simp_all [or_imp]

theorem Renewed.advances_le {plan : SessionPlan} {e : IoError}
    (h : Renewed plan n calls (.error e) c') : advances calls ≤ plan.handshake.length := by
  cases h with
  | refused e => simp
  | broken h =>
    have hlt := h.advances_lt
    simp
    omega

theorem Probed.advances_eq {r : Option (Nat × τ)} (h : Probed c calls r c') :
    advances calls = 0 := by
  cases h <;> rfl

theorem advances_closing (c : Connection (Nat × τ)) : advances c.closing = 0 := by
  rw [closing]
  split <;> rfl

theorem not_alive_of_renewed {plan : SessionPlan} {r : Except IoError Unit}
    {c₁ : Connection (Nat × τ)} {xs ys : List Observation} (hprobe : Probed c xs none c₁)
    (h : Renewed plan n ys r c') : ¬c.Alive (xs ++ (c₁.closing ++ ys)) := by
  rintro ⟨s, -, hmem⟩
  have hxs : ⟨s.1, .isConnected, .connected true⟩ ∉ xs := by cases hprobe <;> simp
  have hclosing : ⟨s.1, .isConnected, .connected true⟩ ∉ c₁.closing := by
    rw [closing]
    split <;> simp
  simp only [List.mem_append, hxs, hclosing, false_or] at hmem
  exact h.not_alive _ hmem rfl

/-- A setup that failed got through fewer calls than a full one has, so that there is no full one
among its calls. -/
theorem Readied.not_reached {e : IoError} (h : Readied c n calls (.error e) c') :
    ¬c.Reached calls := by
  cases h with
  | @renewed xs ys c₁ _ _ hprobe h =>
    rintro (halive | ⟨m, hinfix⟩)
    · exact not_alive_of_renewed hprobe h halive
    · have hle : advances (c.plan.setup m) ≤ advances (xs ++ (c₁.closing ++ ys)) :=
        hinfix.sublist.countP_le
      have hys := h.advances_le
      rw [SessionPlan.advances_setup, advances_append, advances_append, hprobe.advances_eq,
        advances_closing] at hle
      omega

theorem Renewed.barred {plan : SessionPlan} {e : IoError}
    (h : Renewed plan n calls (.error e) c') : Barred calls := by
  cases h with
  | refused e => exact ⟨_, List.mem_singleton_self _, .inl rfl, e, rfl⟩
  | broken h =>
    have hbarred := h.barred plan.isSetup_of_mem_handshake
    exact hbarred.of_subset fun o ho => List.mem_cons_of_mem _ (List.mem_append_left _ ho)

theorem Readied.barred {e : IoError} (h : Readied c n calls (.error e) c') : Barred calls := by
  cases h with
  | renewed hprobe h =>
    rw [← List.append_assoc]
    exact h.barred.of_subset (List.subset_append_right ..)

theorem Probed.asked {r : Option (Nat × τ)} (h : Probed c calls r c')
    (hconnected : c.connected = true) {s : Nat × τ} (hs : c.session = some s) :
    ∃ alive, calls = [⟨s.1, .isConnected, .connected alive⟩] := by
  cases h with
  | alive hstate hs' | dead hstate hs' =>
    cases hs.symm.trans hs'
    exact ⟨_, rfl⟩
  | disconnected hstate => simp [connected, hstate] at hconnected
  | absent hs' => cases hs.symm.trans hs'

theorem Readied.sought {r : Except IoError Unit} (h : Readied c n calls r c') :
    c.Sought calls where
  asked hconnected s hs := by
    cases h with
    | alive h =>
      obtain ⟨alive, rfl⟩ := h.asked hconnected hs
      exact ⟨alive, [], rfl⟩
    | renewed hprobe h =>
      obtain ⟨alive, rfl⟩ := hprobe.asked hconnected hs
      exact ⟨alive, _, rfl⟩
  opened := by
    cases h with
    | alive h =>
      cases h with
      | alive hstate hs => exact .inl ⟨rfl, _, hs, List.mem_singleton_self _⟩
    | renewed hprobe h =>
      exact .inr ⟨by simp [hprobe.opens_eq, h.opens_eq], not_alive_of_renewed hprobe h⟩

theorem Executed.reached {command : Command} {response : Response}
    (h : Executed c n command calls (.ok response) c') : c.Reached calls := by
  cases h with
  | answered h hs response => exact h.reached.append _

theorem Executed.sought {command : Command} {r : Except IoError Response}
    (h : Executed c n command calls r c') : c.Sought calls := by
  cases h with
  | unready h => exact h.sought
  | answered h hs response => exact h.sought.append (by simp [Call.isOpen])
  | failed h hs e => exact h.sought.append (by simp [Call.isOpen])

/-- The command is handed over once if there is a session to be used, and not at all otherwise. -/
theorem Executed.executes_eq {command : Command} {r : Except IoError Response}
    (h : Executed c n command calls r c') :
    (executes calls = [] ∧ ¬c.Reached calls ∧ Barred calls) ∨
      (executes calls = [command] ∧ c.Reached calls) := by
  cases h with
  | unready h => exact .inl ⟨h.executes_eq, h.not_reached, h.barred⟩
  | answered h hs response =>
    refine .inr ⟨?_, h.reached.append _⟩
    rw [executes_append, h.executes_eq]
    rfl
  | failed h hs e =>
    refine .inr ⟨?_, h.reached.append _⟩
    rw [executes_append, h.executes_eq]
    rfl

end Connection

namespace Client

variable {σ τ : Type} {op : Operation} {c : Client (Nat × τ)}

theorem Sent.calls_spec {command : Command} {n : Nat} {calls : List Observation}
    {result : Except Error op.Answer} {c' : Client (Nat × τ)}
    (h : Sent op command c n calls result c') :
    c.connection.Sought calls ∧
      ((executes calls = [] ∧ ¬c.connection.Reached calls ∧ Barred calls) ∨
        (executes calls = [command] ∧ c.connection.Reached calls)) := by
  cases h with
  | failed h | refused h | answered h => exact ⟨h.sought, h.executes_eq⟩
  | @misshapen xs _ _ _ h hs hshape hrefused =>
    have hreached : c.connection.Reached xs := h.reached
    refine ⟨h.sought.append (by simp [Call.isOpen]), .inr ⟨?_, hreached.append _⟩⟩
    rcases h.executes_eq with ⟨-, hno, -⟩ | ⟨hexecutes, -⟩
    · exact absurd hreached hno
    · simp [hexecutes, Call.command?]

/-- **One command at most.** During an operation at most one session is opened, and at most one
command is handed over, which is the one that the operation denotes. That happens exactly if nothing
is wrong with the arguments, something is asked for, and there is a session to be used.

If nothing is wrong and something is asked for, a session is looked for: the held one is asked, and
another is opened unless that one is alive. Then the command is handed over, unless a call to open or
to set up that session has failed.

If the arguments are at fault, or nothing is asked for, the operation returns at once, with the first
fault or with a miss, and neither the client nor the network has noticed anything. -/
theorem sends_at_most_once (net : Network σ τ) (op : Operation) (c : Client (Nat × τ))
    (w : Observed σ) :
    let out := c.perform net.recorded op w
    ∃ calls, out.2.2.log = w.log ++ calls ∧
      opens calls ≤ 1 ∧
      (executes calls = [] ∨
        ∃ command, op.Denotes c.config c.tokens.get? command ∧ executes calls = [command]) ∧
      ((executes calls).length = 1 ↔
        op.fault? c.config = none ∧ op.isVoid = false ∧ c.connection.Reached calls) ∧
      (op.fault? c.config = none → op.isVoid = false →
        c.connection.Sought calls ∧ (executes calls = [] → Barred calls)) ∧
      (∀ e, op.fault? c.config = some e → out = (.error e, c, w)) ∧
      (op.isVoid → out = (.ok op.miss, c, w)) := by
  dsimp only
  cases hfault : op.fault? c.config with
  | some e =>
    have hperform : c.perform net.recorded op w = (.error e, c, w) := by
      rw [perform, op.command_of_fault hfault]
    rw [hperform]
    refine ⟨[], (List.append_nil _).symm, Nat.zero_le 1, .inl rfl, by simp, by simp, ?_, ?_⟩
    · rintro _ ⟨⟩
      rfl
    · intro hvoid
      cases (op.fault?_eq_none_of_isVoid hvoid).symm.trans hfault
  | none =>
    cases hvoid : op.isVoid with
    | true =>
      have hperform : c.perform net.recorded op w = (.ok op.miss, c, w) := by
        rw [perform, op.command_of_isVoid hvoid]
      rw [hperform]
      refine ⟨[], (List.append_nil _).symm, Nat.zero_le 1, .inl rfl, by simp, by simp, ?_,
        fun _ => rfl⟩
      rintro _ ⟨⟩
    | false =>
      obtain ⟨command, hcommand⟩ := op.exists_command hfault hvoid c.tokens.get?
      obtain ⟨calls, hsent, hext⟩ := send_spec net op command c w
      obtain ⟨hsought, hexecutes⟩ := hsent.calls_spec
      rw [perform_of_command hcommand]
      refine ⟨calls, hext.log, ?_, ?_, ?_, fun _ _ => ⟨hsought, ?_⟩, by rintro _ ⟨⟩, by rintro ⟨⟩⟩
      · rcases hsought.opened with ⟨h, -⟩ | ⟨h, -⟩ <;> simp [h]
      · rcases hexecutes with ⟨h, -⟩ | ⟨h, -⟩
        · exact .inl h
        · exact .inr ⟨command, Operation.denotes_of_command hcommand, h⟩
      · rcases hexecutes with ⟨h, hreached, -⟩ | ⟨h, hreached⟩ <;> simp [h, hreached]
      · intro hnone
        rcases hexecutes with ⟨-, -, hbarred⟩ | ⟨h, -⟩
        · exact hbarred
        · cases hnone.symm.trans h

/-- A command is sent once also if a dead session has to be replaced. -/
example :
    let c : Client (Nat × Unit) := .ofConfig {}
    let c := { c with connection := c.connection.holding (7, ()) }
    let w : Observed Script := { world := { isConnected := [false] } }
    executes (c.perform Script.network.recorded .version w).2.2.log = [.version] := by
  rfl

end Client

end CacheClient
