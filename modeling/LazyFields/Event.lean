import LazyFields.Heap

/-!
The events that a run reports. An event knows what happened; its level, its target, its
message and its fields are read off it, and so is its line in a log.
-/

namespace LazyFields

inductive Level
  | error
  | warn
  | info
  | debug
  | trace
  deriving DecidableEq

namespace Level

def name : Level → String
  | .error => "ERROR"
  | .warn => "WARN"
  | .info => "INFO"
  | .debug => "DEBUG"
  | .trace => "TRACE"

def verbosity : Level → Nat
  | .error => 1
  | .warn => 2
  | .info => 3
  | .debug => 4
  | .trace => 5

end Level

structure RunId where
  index : Nat
  deriving DecidableEq

inductive Event
  | forcing (f : Flavour) (c : CellId)
  | evaluationFailed (f : Flavour) (c : CellId) (e : EvalError)
  | passed (run : RunId) (check : String)
  | untouched (run : RunId) (check : String)
  | raised (run : RunId) (e : EvalError)
  | allPassed (checks : Nat)
  deriving DecidableEq

inductive EventField
  | check (name : String)
  | error (e : EvalError)
  | checks (count : Nat)
  deriving DecidableEq

namespace EventField

/-- Only the name of a check is a text of its own, and `quote` decides how it is written. -/
def text (quote : String → String) : EventField → String
  | .check name => "check=" ++ quote name
  | .error e => "error=" ++ e.message
  | .checks count => "checks=" ++ count.repr

end EventField

namespace Event

def level : Event → Level
  | .forcing _ _ => .trace
  | .evaluationFailed _ _ _ | .untouched _ _ => .debug
  | .passed _ _ | .raised _ _ | .allPassed _ => .info

def target : Event → String
  | .forcing .single _ | .evaluationFailed .single _ _ => "lazy_record::lazy"
  | .forcing .shared _ | .evaluationFailed .shared _ _ => "lazy_record::sync"
  | .passed _ _ | .untouched _ _ | .raised _ _ => "lazy_record::verify"
  | .allPassed _ => "lazy_record_verify"

def message : Event → String
  | .forcing .single _ => "forcing lazy value"
  | .forcing .shared _ => "forcing shared lazy value"
  | .evaluationFailed .single _ _ => "lazy evaluation failed"
  | .evaluationFailed .shared _ _ => "shared lazy evaluation failed"
  | .passed _ _ => "passed"
  | .untouched _ _ => "lazy field still unevaluated"
  | .raised _ _ => "lazy field raised on explicit access"
  | .allPassed _ => "all lazy field checks passed"

def fields : Event → List EventField
  | .forcing _ _ => []
  | .evaluationFailed _ _ e | .raised _ e => [.error e]
  | .passed _ name | .untouched _ name => [.check name]
  | .allPassed count => [.checks count]

def line (e : Event) (quote : String → String) : String :=
  e.level.name ++ " " ++ e.target ++ ": " ++ e.message ++
    String.join (e.fields.map fun field => " " ++ field.text quote)

end Event

end LazyFields
