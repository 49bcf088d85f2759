import LazyFields.Force
import LazyFields.Record
import LazyFields.Scenario.Report

/-!
The verification of a lazy field. A run builds a record around the field, reads its plain
fields, updates copies of it, and checks after each stage that nobody has evaluated the
field since the run began; an explicit access at the end has to raise an error. The
evaluations that a run reports are a difference of tallies, exact as long as those are.
-/

namespace LazyFields

structure Scenario where
  lazyField : Handle .int
  counter : Counter
  deriving DecidableEq

inductive Check
  | field (name : String) (expected actual : Int32)
  | untouched (name : String)
  deriving DecidableEq

namespace Check

def name : Check → String
  | .field name _ _ => name
  | .untouched name => name

def all (b : B) : List Check :=
  [.field "b.normal_field() == 0" 0 b.normalField,
   .field "b.dummy_field() == 1" 1 b.dummyField,
   .untouched "construct",
   .field "b.with_normal_field(1).normal_field() == 1" 1 (b.withNormalField 1).normalField,
   .field "b.with_normal_field(1).dummy_field() == 1" 1 (b.withNormalField 1).dummyField,
   .untouched "with_normal_field",
   .field "b.with_dummy_field(0).normal_field() == 0" 0 (b.withDummyField 0).normalField,
   .field "b.with_dummy_field(0).dummy_field() == 0" 0 (b.withDummyField 0).dummyField,
   .untouched "with_dummy_field"]

def raises : String := "b.lazy_field() raises"

end Check

/-- A run in progress, with what it saw of the scenario when it began. -/
structure Watch where
  run : RunId
  scenario : Scenario
  baseline : Nat
  wasEvaluated : Bool

variable {π : Kind → Type} {σ : Type}

namespace Watch

def begin (s : Scenario) (w : World π σ) : Watch × World π σ :=
  (⟨w.newRun.1, s, w.tally s.counter, w.isEvaluated s.lazyField⟩, w.newRun.2)

def evaluations (t : Watch) (w : World π σ) : Nat := w.tally t.scenario.counter - t.baseline

def newlyEvaluated (t : Watch) (w : World π σ) : Bool :=
  !t.wasEvaluated && w.isEvaluated t.scenario.lazyField

def disturbed (t : Watch) (w : World π σ) : Bool := t.evaluations w != 0 || t.newlyEvaluated w

end Watch

namespace Environment

variable (env : Environment π σ)

/-- A check that passes is announced before its name goes to the report. -/
def check (t : Watch) (reported : List String) :
    Check → Exec π σ (Except VerifyError (List String))
  | .field name expected actual =>
    if expected = actual then do
      env.emit (.passed t.run name)
      return .ok (reported ++ [name])
    else
      return .error (.check name expected actual)
  | .untouched name => do
    if ← Exec.view t.disturbed then
      return .error (.unexpectedEvaluation name (← Exec.view t.evaluations))
    else
      env.emit (.untouched t.run name)
      return .ok (reported ++ [name])

def checkAll (t : Watch) :
    List String → List Check → Exec π σ (Except VerifyError (List String))
  | reported, [] => return .ok reported
  | reported, c :: rest => do
    match ← env.check t reported c with
    | .ok reported => checkAll t reported rest
    | .error e => return .error e

def access (t : Watch) (reported : List String) (b : B) :
    Exec π σ (Except VerifyError Report) := do
  Exec.note (.accessing t.run)
  match ← env.force b.lazyField with
  | .ok v => return .error (.missingEvaluationError v)
  | .error e =>
    env.emit (.raised t.run e)
    return .ok ⟨reported ++ [Check.raises], e⟩

def verifyWatched (t : Watch) (b : B) : Exec π σ (Except VerifyError Report) := do
  match ← env.checkAll t [] (Check.all b) with
  | .ok reported => env.access t reported b
  | .error e => return .error e

def verify (s : Scenario) : Exec π σ (Except VerifyError Report) := do
  let t ← Exec.change (Watch.begin s)
  let b : B := { normalField := 0, lazyField := s.lazyField, dummyField := 1 }
  Exec.note (.verifying t.run)
  (env.verifyWatched t b).recorded (.verified t.run)

end Environment

end LazyFields
