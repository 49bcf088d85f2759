import LazyFields.Console.Filter
import LazyFields.Program

/-!
The command that verifies a lazy field. It runs the scenario that divides by zero, with
nobody interfering, logs the events that its filter shows, and says by its exit status
whether all checks passed.
-/

namespace LazyFields

def Host.silent : Host (fun _ => Empty) Unit := ⟨fun _ code => code.elim, fun _ => pure ()⟩

structure Transcript where
  exitStatus : Nat
  output : List String
  log : List String
  deriving DecidableEq

namespace Console

def verification : Exec (fun _ => Empty) Unit (Except VerifyError Unit) := do
  match ← Host.silent.run 1 Scenario.verifyNew with
  | .ok r =>
    (Host.silent.environment 1).emit (.allPassed r.checks.length)
    return .ok ()
  | .error e => return .error e

def failure (e : VerifyError) : List String :=
  ["Error: lazy field verification failed", "", "Caused by:", "    " ++ e.message]

def run (setting : Option String) : Transcript :=
  let (ending, w) := verification (.start ())
  let log := (w.events.filter (Filter.ofSetting setting).shows).map (·.line Text.quoted)
  match ending with
  | .value (.ok ()) => ⟨0, [], log⟩
  | .value (.error e) => ⟨1, [], log ++ failure e⟩
  | .panicked message => ⟨101, [], log ++ [message]⟩
  | .halted _ => ⟨101, [], log⟩

end Console

end LazyFields
