import LazyFields.Scenario.Run

/-!
Programs over lazy fields. A program can create fields, force them, look at them, run
verifications and keep a state of its own; it cannot fill a cell, release a guard or
report an event. A host gives meaning to the codes of producers and listens to events,
both by programs, so forcing a field can run a program that forces fields in turn.
-/

namespace LazyFields

/-- What can be done without running any producer. -/
inductive Quiet (π : Kind → Type) (σ : Type) : Type → Type 1
  | defer {k : Kind} (f : Flavour) (p : Producer π k) : Quiet π σ (Handle k)
  | ready {k : Kind} (f : Flavour) (v : k.Val) : Quiet π σ (Handle k)
  | peek {k : Kind} (h : Handle k) : Quiet π σ (Option k.Val)
  | scenario (p : Producer π .int) : Quiet π σ Scenario
  | evaluations (s : Scenario) : Quiet π σ Nat
  | host {α : Type} (f : σ → α × σ) : Quiet π σ α

inductive Action (π : Kind → Type) (σ : Type) : Type → Type 1
  | quiet {α : Type} (q : Quiet π σ α) : Action π σ α
  | get {k : Kind} (h : Handle k) : Action π σ (Except EvalError k.Val)
  | verify (s : Scenario) : Action π σ (Except VerifyError Report)

inductive Proc (π : Kind → Type) (σ : Type) : Type → Type 1
  | pure {α : Type} (a : α) : Proc π σ α
  | bind {α β : Type} (x : Proc π σ α) (f : α → Proc π σ β) : Proc π σ β
  | act {α : Type} (a : Action π σ α) : Proc π σ α
  | panic {α : Type} (message : String) : Proc π σ α
  | attempt {α : Type} (x : Proc π σ α) : Proc π σ (Except String α)

variable {π : Kind → Type} {σ α β : Type}

instance : Monad (Proc π σ) where
  pure := .pure
  bind := .bind

def World.newScenario (w : World π σ) (p : Producer π .int) : Scenario × World π σ :=
  let (c, w) := w.newCounter
  let (h, w) := w.alloc (.fresh .single (.counted c p))
  (⟨h, c⟩, w)

def Quiet.apply : Quiet π σ α → World π σ → α × World π σ
  | .defer f p, w => w.alloc (.fresh f (.plain p))
  | .ready f v, w => w.alloc (.ready f v)
  | .peek h, w => (w.peek h, w)
  | .scenario p, w => w.newScenario p
  | .evaluations s, w => (w.tally s.counter, w)
  | .host f, w => ((f w.host).1, { w with host := (f w.host).2 })

def Action.exec (env : Environment π σ) : Action π σ α → Exec π σ α
  | .quiet q => Exec.change q.apply
  | .get h => env.force h
  | .verify s => env.verify s

def Proc.exec (env : Environment π σ) {α : Type} : Proc π σ α → Exec π σ α
  | .pure a => Exec.pure a
  | .bind x f => Exec.bind (x.exec env) fun a => (f a).exec env
  | .act a => a.exec env
  | .panic message => Exec.panic message
  | .attempt x => (x.exec env).attempt

structure Host (π : Kind → Type) (σ : Type) where
  produce : (k : Kind) → π k → Proc π σ (Except EvalError k.Val)
  listen : Event → Proc π σ Unit

/-- The environment in which programs may call one another to the given depth. -/
def Host.environment (host : Host π σ) : Nat → Environment π σ
  | 0 => ⟨fun _ _ => Exec.halt .tooDeep, fun _ => Exec.halt .tooDeep⟩
  | depth + 1 =>
    ⟨fun k code => (host.produce k code).exec (host.environment depth),
     fun e => (host.listen e).exec (host.environment depth)⟩

def Host.run (host : Host π σ) (depth : Nat) (x : Proc π σ α) : Exec π σ α :=
  x.exec (host.environment depth)

namespace Proc

def defer {k : Kind} (f : Flavour) (p : Producer π k) : Proc π σ (Handle k) :=
  .act (.quiet (.defer f p))

def ready {k : Kind} (f : Flavour) (v : k.Val) : Proc π σ (Handle k) := .act (.quiet (.ready f v))

def scenario (p : Producer π .int) : Proc π σ Scenario := .act (.quiet (.scenario p))

def host (f : σ → α × σ) : Proc π σ α := .act (.quiet (.host f))

def ask (f : σ → α) : Proc π σ α := host fun s => (f s, s)

def tell (f : σ → σ) : Proc π σ Unit := host fun s => ((), f s)

end Proc

namespace Handle

variable {k : Kind}

def get (h : Handle k) : Proc π σ (Except EvalError k.Val) := .act (.get h)

def peek (h : Handle k) : Proc π σ (Option k.Val) := .act (.quiet (.peek h))

def isEvaluated (h : Handle k) : Proc π σ Bool := do
  return (← h.peek).isSome

end Handle

namespace Scenario

def divisionByZero : Producer π .int := .division 1 0

def evaluations (s : Scenario) : Proc π σ Nat := .act (.quiet (.evaluations s))

def verify (s : Scenario) : Proc π σ (Except VerifyError Report) := .act (.verify s)

def verifyNew : Proc π σ (Except VerifyError Report) := do
  (← Proc.scenario divisionByZero).verify

end Scenario

theorem Proc.exec_bind (env : Environment π σ) (x : Proc π σ α) (f : α → Proc π σ β) :
    (x >>= f).exec env = x.exec env >>= fun a => (f a).exec env := rfl

end LazyFields
