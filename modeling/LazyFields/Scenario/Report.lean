import LazyFields.EvalError
import LazyFields.Text.Decimal

/-!
What a verification answers: a report of the checks that passed with the error that the
lazy field raised in the end, or the reason why the verification failed.
-/

namespace LazyFields

open Text (Shape decimal quoted)

inductive VerifyError
  | check (name : String) (expected actual : Int32)
  | unexpectedEvaluation (name : String) (evaluations : Nat)
  | missingEvaluationError (value : Int32)
  deriving DecidableEq

structure Report where
  checks : List String
  evaluationError : EvalError
  deriving DecidableEq

namespace VerifyError

def message : VerifyError → String
  | .check name expected actual =>
    "check `" ++ name ++ "` failed: expected " ++ decimal expected ++ ", got " ++ decimal actual
  | .unexpectedEvaluation name evaluations =>
    "the lazy field was evaluated during `" ++ name ++ "` (" ++ evaluations.repr ++
      " evaluation(s))"
  | .missingEvaluationError value =>
    "accessing the lazy field returned " ++ decimal value ++ " instead of raising an error"

def shape : VerifyError → Shape
  | .check name expected actual =>
    .group (.record "Check")
      [.labelled "check" (.atom (quoted name)),
       .labelled "expected" (.atom (decimal expected)),
       .labelled "actual" (.atom (decimal actual))]
  | .unexpectedEvaluation name evaluations =>
    .group (.record "UnexpectedEvaluation")
      [.labelled "check" (.atom (quoted name)),
       .labelled "evaluations" (.atom evaluations.repr)]
  | .missingEvaluationError value =>
    .group (.record "MissingEvaluationError") [.labelled "value" (.atom (decimal value))]

end VerifyError

def Report.shape (r : Report) : Shape :=
  .group (.record "Report")
    [.labelled "checks" (.group .list (r.checks.map fun name => .atom (quoted name))),
     .labelled "evaluation_error" r.evaluationError.shape]

def Report.answerShape : Except VerifyError Report → Shape
  | .ok r => .group (.tuple "Ok") [r.shape]
  | .error e => .group (.tuple "Err") [e.shape]

end LazyFields
