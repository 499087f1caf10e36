import CacheClient.Network

/-!
# Networks under observation

Any network can be put under observation (`Network.recorded`): it does what it did, and each
call is written down with the session it was made on and how it ended. Sessions are numbered in
the order of the attempts to open one.
-/

namespace CacheClient

/-- How a call ended. -/
inductive Outcome where
  | done
  | failed (cause : IoError)
  /-- The answer to the question whether a session is connected. -/
  | connected (yes : Bool)
  | responded (response : Response)
deriving DecidableEq

/-- A call, the session it was made on, and how it ended. -/
structure Observation where
  session : Nat
  call : Call
  outcome : Outcome
deriving DecidableEq

/-- A world with the calls that were made in it. -/
structure Observed (σ : Type) where
  world : σ
  attempts : Nat := 0
  log : List Observation := []

namespace Observed

variable {σ α : Type}

/-- The same world after another call. -/
def record (w : Observed σ) (world : σ) (session : Nat) (call : Call) (outcome : Outcome) :
    Observed σ :=
  { w with world, log := w.log ++ [⟨session, call, outcome⟩] }

/-- Make a call that may fail, and write it down. -/
def attempt (session : Nat) (call : Call) (outcome : α → Outcome) (act : Attempt σ α) :
    Attempt (Observed σ) α := fun w =>
  match act w.world with
  | (.ok x, world) => (.ok x, w.record world session call (outcome x))
  | (.error e, world) => (.error e, w.record world session call (.failed e))

end Observed

/-- The same network, with its calls written down. -/
def Network.recorded {σ τ : Type} (net : Network σ τ) : Network (Observed σ) (Nat × τ) where
  openSession address := fun w =>
    let n := w.attempts
    let w := { w with attempts := n + 1 }
    match net.openSession address w.world with
    | (.ok s, world) => (.ok (n, s), w.record world n (.openSession address) .done)
    | (.error e, world) => (.error e, w.record world n (.openSession address) (.failed e))
  setTimeout s wait :=
    Observed.attempt s.1 (.setTimeout wait) (fun _ => .done) (net.setTimeout s.2 wait)
  setNodelay s on :=
    Observed.attempt s.1 (.setNodelay on) (fun _ => .done) (net.setNodelay s.2 on)
  connect s := Observed.attempt s.1 .connect (fun _ => .done) (net.connect s.2)
  close s := fun w => w.record (net.close s.2 w.world) s.1 .close .done
  isConnected s := fun w =>
    let (alive, world) := net.isConnected s.2 w.world
    (alive, w.record world s.1 .isConnected (.connected alive))
  execute s command :=
    Observed.attempt s.1 (.execute command) .responded (net.execute s.2 command)

end CacheClient
