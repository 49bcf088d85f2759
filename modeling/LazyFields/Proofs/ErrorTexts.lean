import LazyFields.Proofs.Delimiters
import LazyFields.Scenario.Report

/-!
The text of an error tells which error it is. The name of a check is written as it is and can
contain whatever may come after it, so these texts are read from their ends: the last number
begins after the last blank or the last bracket.
-/

namespace LazyFields

open Text (decimal decimal_inj cut_after not_mem_decimal not_mem_repr)

namespace VerifyError

variable {name name' : String} {expected actual expected' actual' value value' : Int32}
  {n n' : Nat} {e e' : VerifyError}

theorem message_check : (check name expected actual).message =
    "check `" ++ name ++ "` failed: expected " ++ decimal expected ++ ", got " ++
      decimal actual := rfl

theorem message_unexpectedEvaluation : (unexpectedEvaluation name n).message =
    "the lazy field was evaluated during `" ++ name ++ "` (" ++ n.repr ++ " evaluation(s))" := rfl

theorem message_missingEvaluationError : (missingEvaluationError value).message =
    "accessing the lazy field returned " ++ decimal value ++ " instead of raising an error" := rfl

theorem eq_of_message_check
    (h : (check name expected actual).message = (check name' expected' actual').message) :
    check name expected actual = check name' expected' actual' := by
  have hblank (n : Int32) : ' ' ∉ (decimal n).toList := not_mem_decimal rfl n
  rw [message_check, message_check] at h
  obtain ⟨hrest, hactual⟩ := cut_after (by simp) (hblank _) (hblank _) h
  obtain ⟨hname, hexpected⟩ := cut_after (by simp) (hblank _) (hblank _) hrest
  rw [(String.append_right_inj _).mp hname, decimal_inj.mp hexpected, decimal_inj.mp hactual]

theorem eq_of_message_unexpectedEvaluation
    (h : (unexpectedEvaluation name n).message = (unexpectedEvaluation name' n').message) :
    unexpectedEvaluation name n = unexpectedEvaluation name' n' := by
  have hbracket (n : Nat) : '(' ∉ n.repr.toList := not_mem_repr rfl n
  rw [message_unexpectedEvaluation, message_unexpectedEvaluation, String.append_left_inj] at h
  obtain ⟨hname, hn⟩ := cut_after (by simp) (hbracket _) (hbracket _) h
  rw [(String.append_right_inj _).mp hname, Nat.repr_inj.mp hn]

theorem eq_of_message_missingEvaluationError
    (h : (missingEvaluationError value).message = (missingEvaluationError value').message) :
    missingEvaluationError value = missingEvaluationError value' := by
  rw [message_missingEvaluationError, message_missingEvaluationError, String.append_left_inj,
    String.append_right_inj] at h
  rw [decimal_inj.mp h]

def initial : VerifyError → Char
  | .check _ _ _ => 'c'
  | .unexpectedEvaluation _ _ => 't'
  | .missingEvaluationError _ => 'a'

theorem head?_message (e : VerifyError) : e.message.toList.head? = some e.initial := by
  cases e with
  | check => simp [message_check, initial]
  | unexpectedEvaluation => simp [message_unexpectedEvaluation, initial]
  | missingEvaluationError => simp [message_missingEvaluationError, initial]

theorem eq_of_message (h : e.message = e'.message) : e = e' := by
  have hinitial : some e.initial = some e'.initial := by
    rw [← head?_message, ← head?_message, h]
  cases e <;> cases e' <;> try cases hinitial
  case check.check => exact eq_of_message_check h
  case unexpectedEvaluation.unexpectedEvaluation => exact eq_of_message_unexpectedEvaluation h
  case missingEvaluationError.missingEvaluationError =>
    exact eq_of_message_missingEvaluationError h

end VerifyError

namespace EvalError

variable {text : String} {e e' : EvalError}

theorem message_arithmetic : (arithmetic text).message = "arithmetic error: " ++ text := rfl

theorem message_failed : (failed text).message = "evaluation failed: " ++ text := rfl

theorem message_poisoned : poisoned.message = "lazy value poisoned by a panicking producer" := rfl

def initial : EvalError → Char
  | .arithmetic _ => 'a'
  | .failed _ => 'e'
  | .poisoned => 'l'

theorem head?_message (e : EvalError) : e.message.toList.head? = some e.initial := by
  cases e with
  | arithmetic => simp [message_arithmetic, initial]
  | failed => simp [message_failed, initial]
  | poisoned => simp [message_poisoned, initial]

theorem eq_of_message (h : e.message = e'.message) : e = e' := by
  have hinitial : some e.initial = some e'.initial := by
    rw [← head?_message, ← head?_message, h]
  cases e <;> cases e' <;> try cases hinitial
  case arithmetic.arithmetic =>
    rw [message_arithmetic, message_arithmetic, String.append_right_inj] at h
    rw [h]
  case failed.failed =>
    rw [message_failed, message_failed, String.append_right_inj] at h
    rw [h]
  case poisoned.poisoned => rfl

end EvalError

/-- Errors with the same text are the same error: of the same kind, with the same texts and
numbers, however much a text in them looks like the rest of a message. -/
theorem messages_identify :
    (∀ e e' : VerifyError, e.message = e'.message ↔ e = e') ∧
      ∀ e e' : EvalError, e.message = e'.message ↔ e = e' :=
  ⟨fun _ _ => ⟨VerifyError.eq_of_message, congrArg _⟩,
    fun _ _ => ⟨EvalError.eq_of_message, congrArg _⟩⟩

example : (VerifyError.check "a` failed: expected 1, got 2" 3 4).message =
    "check `a` failed: expected 1, got 2` failed: expected 3, got 4" := by decide

end LazyFields
