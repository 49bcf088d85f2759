import LazyFields.Threads.Code

/-!
A thread and its atomic steps. An access to a shared field looks at the cell without the
guard, takes the guard, looks again, announces itself, calls the producer, stores the value
or announces the error, and lets the guard go; each of these is one step. A thread that
waits for a guard has no step until the guard is free.
-/

namespace LazyFields

inductive Phase (k : Kind)
  | look
  | lock
  | lookAgain
  | announce
  | call
  | fill (v : k.Val)
  | report (e : EvalError)
  | release (r : Reply k)

def Phase.guarded {k : Kind} : Phase k → Bool
  | .look | .lock => false
  | _ => true

/-- The accesses that wait for their producers, the innermost first. The index is the type of
the result that the innermost one waits for. -/
inductive Calls (π : Kind → Type) (σ ρ : Type) : Type → Type 1
  | none : Calls π σ ρ ρ
  | call {k : Kind} {τ : Type} (h : Handle k) (next : Reply k → Code π σ τ)
      (rest : Calls π σ ρ τ) : Calls π σ ρ (Except EvalError k.Val)

inductive Thread (π : Kind → Type) (σ ρ : Type) : Type 1
  | running {τ : Type} (code : Code π σ τ) (calls : Calls π σ ρ τ)
  | inside {k : Kind} {τ : Type} (h : Handle k) (p : Phase k) (next : Reply k → Code π σ τ)
      (calls : Calls π σ ρ τ)

variable {π : Kind → Type} {σ ρ τ : Type} {k : Kind}

def Reply.finish : Reply k → Finish EvalError Value
  | .ok r => (Finish.of r).map Value.of
  | .error message => .panic message

def Phase.after : Reply k → Phase k
  | .ok (.ok v) => .fill v
  | .ok (.error e) => .report e
  | .error message => .release (.error message)

def Guard.after : Reply k → Guard
  | .ok _ => .free
  | .error _ => .poisoned

namespace Calls

def cells {τ : Type} : Calls π σ ρ τ → List CellId
  | .none => []
  | .call h _ rest => h.id :: rest.cells

end Calls

namespace Thread

def start (x : Proc π σ ρ) : Thread π σ ρ := .running (x.code .done) .none

def result? : Thread π σ ρ → Option (Except String ρ)
  | .running (.done r) .none => some r
  | _ => none

def holding : Thread π σ ρ → List CellId
  | .running _ calls => calls.cells
  | .inside h p _ calls => if p.guarded then h.id :: calls.cells else calls.cells

def access (crew : Crew π σ) (w : World π σ) (h : Handle k) (c : Cell π k)
    (next : Reply k → Code π σ τ) (calls : Calls π σ ρ τ) :
    Phase k → Option (Thread π σ ρ × World π σ)
  | .look =>
    match c.value? with
    | some v =>
      some (.running (next (.ok (.ok v))) calls, w.note (.answered h.id (.value (.of v))))
    | none => some (.inside h .lock next calls, w)
  | .lock =>
    match c.guard with
    | .free => some (.inside h .lookAgain next calls, w.modify h (·.withGuard .held))
    | .held => none
    | .poisoned =>
      some (.running (next (.ok (.error .poisoned))) calls,
        w.note (.answered h.id (.error .poisoned)))
  | .lookAgain =>
    match c.value? with
    | some v => some (.inside h (.release (.ok (.ok v))) next calls, w)
    | none => some (.inside h .announce next calls, w)
  | .announce =>
    let e : Event := .forcing .shared h.id
    let w := w.note (.emitted e)
    some (.inside h .call next calls, { w with host := crew.hear e w.host })
  | .call =>
    match c.source? with
    | none => none
    | some s =>
      some (.running (s.producer.code crew) (.call h next calls),
        (w.bump s.counter).note (.begun h.id))
  | .fill v =>
    let (held, w) := w.store h v
    some (.inside h (.release (.ok (.ok held))) next calls, w)
  | .report e =>
    let event : Event := .evaluationFailed .shared h.id e
    let w := w.note (.emitted event)
    some (.inside h (.release (.ok (.error e))) next calls,
      { w with host := crew.hear event w.host })
  | .release r =>
    some (.running (next r) calls,
      (w.modify h (·.withGuard (.after r))).note (.answered h.id r.finish))

/-- One step. A thread that has ended has none, nor has one that waits for a guard or that
asks for something that only a single thread can have. -/
def step (crew : Crew π σ) : Thread π σ ρ → World π σ → Option (Thread π σ ρ × World π σ)
  | .running (.done _) .none, _ => none
  | .running (.done r) (.call h next rest), w =>
    some (.inside h (.after r) next rest, w.note (.ended h.id (Reply.finish r)))
  | .running (.quiet q next) calls, w =>
    some (.running (next (q.apply w).1) calls, (q.apply w).2)
  | .running (.get h next) calls, w => some (.inside h .look next calls, w.note (.asked h.id))
  | .running .stuck _, _ => none
  | .inside h p next calls, w =>
    match w.heap.cell? h with
    | none => none
    | some c => if c.flavour = .shared then access crew w h c next calls p else none

end Thread

end LazyFields
