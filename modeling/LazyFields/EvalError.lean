import LazyFields.Text.Quoted
import LazyFields.Text.Shape

/-!
Why a lazy field has no value. An evaluation can fail for arithmetic reasons, or for a
reason of its own; a shared field whose producer panicked refuses all later accesses.
-/

namespace LazyFields

open Text (Shape quoted)

inductive EvalError
  | arithmetic (text : String)
  | failed (text : String)
  | poisoned
  deriving DecidableEq

def EvalError.message : EvalError → String
  | .arithmetic text => "arithmetic error: " ++ text
  | .failed text => "evaluation failed: " ++ text
  | .poisoned => "lazy value poisoned by a panicking producer"

def EvalError.shape : EvalError → Shape
  | .arithmetic text => .group (.tuple "Arithmetic") [.atom (quoted text)]
  | .failed text => .group (.tuple "Failed") [.atom (quoted text)]
  | .poisoned => .atom "Poisoned"

end LazyFields
