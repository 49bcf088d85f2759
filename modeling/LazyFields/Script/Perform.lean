import LazyFields.Display
import LazyFields.Record.Equality
import LazyFields.Script.Session

/-!
Steps and their answers. A step looks up all that it names before it changes anything, so
a step that cannot be understood changes nothing. Its answer keeps what was run inside it
also when the step itself panics.
-/

namespace LazyFields.Script

open Text (Layout)

abbrev Job (α : Type) : Type 1 := Proc (fun _ => Recipe) Session α

namespace Job

def thing? (name : String) : Job (Option Thing) := Proc.ask (·.names[name]?)

def recordField? (name : String) : Job (Option (Handle .int)) := do
  match ← thing? name with
  | some (.handle .single .int h _) => return some h
  | _ => return none

def shown : Thing → Job Payload
  | .handle f _ h _ => return .value (.text ((f.shape (← h.peek)).print .inline))
  | .a r => return .value (.text (r.display (← r.lazyField.peek)))
  | .b r => return .value (.text (r.display (← r.lazyField.peek)))
  | .scenario s => return .count (← s.evaluations)

def define (name : String) (t : Thing) : Job Verdict := do
  Proc.tell (·.define name t)
  return .ok (← shown t)

def newRecipe (e : Expr) : Job Recipe := Proc.host (·.newRecipe e)

def tryGet {k : Kind} (h : Handle k) : Job Attempt := do
  match ← h.get.attempt with
  | .ok r => return .ok (r.map Value.of)
  | .error message => return .error message

end Job

namespace Verdict

def ofEval (r : Except EvalError Value) : Verdict :=
  match r with
  | .ok v => .ok (.value v)
  | .error e => .evalError e

def ofInt (r : Except EvalError Int32) : Verdict := ofEval (r.map Value.int)

def ofBool (r : Except EvalError Bool) : Verdict :=
  match r with
  | .ok b => .ok (.flag b)
  | .error e => .evalError e

def ofReport (layout : Option Layout) (r : Except VerifyError Report) : Verdict :=
  match layout, r with
  | some layout, r => .ok (.value (.text ((Report.answerShape r).print layout)))
  | none, .ok report => .ok (.report report)
  | none, .error e => .verifyError e

def ofErrorTexts (display : String) (s : Text.Shape) : Verdict :=
  .ok (.errorTexts display (s.print .inline) (s.print .indented))

end Verdict

open Job

def Step.perform : Step → Job Verdict
  | .malformed => return .badInput
  | .checkedDiv a b => return .ofInt (LazyFields.checkedDiv a b)
  | .constant v times =>
    return .ok (.constant (v.constantShape.print .inline) (v.constantShape.print .indented)
      (List.replicate times v))
  | .evalError e => return .ofErrorTexts e.message e.shape
  | .evalErrorEq l r => return .ok (.flag (l = r))
  | .verifyError e => return .ofErrorTexts e.message e.shape
  | .defer name f k producer => do
    let recipe ← newRecipe producer
    define name (.handle f k (← Proc.defer f (.custom recipe)) (some recipe.number))
  | .ready name f v =>
    match v with
    | .int n => do define name (.handle f .int (← Proc.ready f n) none)
    | .text s => do define name (.handle f .text (← Proc.ready f s) none)
  | .get source => do
    match ← thing? source with
    | some (.handle _ _ h _) => return .ofEval ((← h.get).map Value.of)
    | _ => return .badInput
  | .isEvaluated source => do
    match ← thing? source with
    | some (.handle _ _ h _) => return .ok (.flag (← h.isEvaluated))
    | _ => return .badInput
  | .calls source => do
    match ← thing? source with
    | some (.handle _ _ _ (some recipe)) => return .ok (.count (← Proc.ask (·.callsOf recipe)))
    | some (.handle _ _ _ none) => return .ok (.count 0)
    | _ => return .badInput
  | .sameCell l r => do
    match ← thing? l, ← thing? r with
    | some (.handle f k h _), some (.handle f' k' h' _) =>
      if f = f' ∧ k = k' then return .ok (.flag (h.id = h'.id)) else return .badInput
    | _, _ => return .badInput
  | .threads source n => do
    match ← thing? source with
    | some (.handle .shared _ h _) =>
      Proc.tell Session.openDetached
      let attempts ← (List.replicate n ()).mapM fun _ => tryGet h
      Proc.tell Session.closeDetached
      return .ok (.gathered attempts)
    | _ => return .badInput
  | .setCell name v => do
    Proc.tell (·.setCell name v)
    return .ok (.value v)
  | .clone source name => do
    match ← thing? source with
    | some (.scenario _) | none => return .badInput
    | some t => define name t
  | .drop name => do
    let t ← thing? name
    Proc.tell (·.undefine name)
    return .ok (.flag t.isSome)
  | .hook message nth steps => do
    Proc.tell (·.addHook ⟨message, nth, steps⟩)
    return .ok .nothing
  | .newA name normal lazyName => do
    match ← recordField? lazyName with
    | some h => define name (.a { normalField := normal, lazyField := h })
    | none => return .badInput
  | .newB name normal dummy lazyName => do
    match ← recordField? lazyName with
    | some h => define name (.b { normalField := normal, lazyField := h, dummyField := dummy })
    | none => return .badInput
  | .withNormalField source name n => do
    match ← thing? source with
    | some (.a r) => define name (.a (r.withNormalField n))
    | some (.b r) => define name (.b (r.withNormalField n))
    | _ => return .badInput
  | .withDummyField source name n => do
    match ← thing? source with
    | some (.b r) => define name (.b (r.withDummyField n))
    | _ => return .badInput
  | .withLazyField source name lazyName => do
    match ← thing? source, ← recordField? lazyName with
    | some (.a r), some h => define name (.a (r.withLazyField h))
    | some (.b r), some h => define name (.b (r.withLazyField h))
    | _, _ => return .badInput
  | .normalField source => do
    match ← thing? source with
    | some (.a r) => return .ok (.value (.int r.normalField))
    | some (.b r) => return .ok (.value (.int r.normalField))
    | _ => return .badInput
  | .dummyField source => do
    match ← thing? source with
    | some (.b r) => return .ok (.value (.int r.dummyField))
    | _ => return .badInput
  | .lazyField source => do
    match ← thing? source with
    | some (.a r) => return .ofInt (← r.lazyField.get)
    | some (.b r) => return .ofInt (← r.lazyField.get)
    | _ => return .badInput
  | .asA source name => do
    match ← thing? source with
    | some (.b r) => define name (.a r.asA)
    | _ => return .badInput
  | .tryEq l r => do
    match ← thing? l, ← thing? r with
    | some (.a l), some (.a r) => return .ofBool (← l.tryEq r)
    | some (.b l), some (.b r) => return .ofBool (← l.tryEq r)
    | _, _ => return .badInput
  | .display source => do
    match ← thing? source with
    | some (.a r) => return .ok (← shown (.a r))
    | some (.b r) => return .ok (← shown (.b r))
    | _ => return .badInput
  | .debug source layout => do
    match ← thing? source with
    | some (.handle f _ h _) =>
      return .ok (.value (.text ((f.shape (← h.peek)).print layout)))
    | some (.a r) => return .ok (.value (.text ((r.shape (← r.lazyField.peek)).print layout)))
    | some (.b r) => return .ok (.value (.text ((r.shape (← r.lazyField.peek)).print layout)))
    | _ => return .badInput
  | .verify layout => return .ofReport layout (← Scenario.verifyNew)
  | .run source layout => do
    match ← thing? source with
    | some (.scenario s) => return .ofReport layout (← s.verify)
    | _ => return .badInput
  | .scenario name producer => do
    match producer with
    | some e => define name (.scenario (← Proc.scenario (.custom (← newRecipe e))))
    | none => define name (.scenario (← Proc.scenario Scenario.divisionByZero))
  | .evaluations source => do
    match ← thing? source with
    | some (.scenario s) => return .ok (.count (← s.evaluations))
    | _ => return .badInput
  | .console setting => return .ok (.transcript (Console.run setting))

def Step.answer (s : Step) : Job Outcome := do
  Proc.tell Session.openFrame
  match ← s.perform.attempt with
  | .ok v => Proc.host (·.closeFrame v)
  | .error message => Proc.host (·.closeFrame (.panicked message))

end LazyFields.Script
