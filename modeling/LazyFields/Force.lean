import LazyFields.Exec

/-!
Forcing a lazy field. A stored value is handed out at once. Otherwise the field announces
itself, calls its producer, and stores the value, unless a nested access to the same field
has stored one before: the first value stays, and every access hands out the stored one.
An error is announced and not stored. A shared cell does all this under its guard, which
a panic leaves poisoned.
-/

namespace LazyFields

/-- What a run asks of the outside: the meaning of the codes, and an ear for events. -/
structure Environment (π : Kind → Type) (σ : Type) where
  call : (k : Kind) → π k → Exec π σ (Except EvalError k.Val)
  notify : Event → Exec π σ Unit

variable {π : Kind → Type} {σ : Type} {k : Kind}

namespace Environment

variable (env : Environment π σ)

/-- An event is on record before anybody listens to it. -/
def emit (e : Event) : Exec π σ Unit := do
  Exec.note (.emitted e)
  env.notify e

def produce : Producer π k → Exec π σ (Except EvalError k.Val)
  | .constant v => pure (.ok v)
  | .division a b => pure (checkedDiv a b)
  | .custom code => env.call k code

variable (h : Handle k)

def production (s : Source π k) : Exec π σ (Except EvalError k.Val) := do
  Exec.update fun w => (w.bump s.counter).note (.begun h.id)
  (env.produce s.producer).recorded fun finish => .ended h.id (finish.map Value.of)

def evaluate (f : Flavour) (s : Source π k) : Exec π σ (Except EvalError k.Val) := do
  env.emit (.forcing f h.id)
  match ← env.production h s with
  | .ok v => return .ok (← Exec.change (·.store h v))
  | .error e =>
    env.emit (.evaluationFailed f h.id e)
    return .error e

def evaluateGuarded (s : Source π k) : Exec π σ (Except EvalError k.Val) := do
  Exec.update (·.modify h (·.withGuard .held))
  (env.evaluate h .shared s).closing (fun _ w => w.modify h (·.withGuard .free))
    (fun _ w => w.modify h (·.withGuard .poisoned))

def resolve : Access π k → Exec π σ (Except EvalError k.Val)
  | .known v => return .ok v
  | .refused => return .error .poisoned
  | .blocked => Exec.halt .deadlock
  | .unguarded s => env.evaluate h .single s
  | .guarded s => env.evaluateGuarded h s

def force : Exec π σ (Except EvalError k.Val) := do
  match ← Exec.view (·.heap.cell? h) with
  | none => Exec.halt .dangling
  | some c =>
    Exec.note (.asked h.id)
    (env.resolve h c.access).recorded fun finish => .answered h.id (finish.map Value.of)

end Environment

end LazyFields
