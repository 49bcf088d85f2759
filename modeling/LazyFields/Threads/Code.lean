import LazyFields.Program

/-!
What a thread still has to do, one action at a time. Each action comes with the code that
goes on with its result, so that other threads can act between any two of them. An access
to a field can unwind, and the code after it is told so.
-/

namespace LazyFields

abbrev Reply (k : Kind) : Type := Except String (Except EvalError k.Val)

inductive Code (π : Kind → Type) (σ ρ : Type) : Type 1
  | done (r : Except String ρ)
  | quiet {α : Type} (q : Quiet π σ α) (next : α → Code π σ ρ)
  | get {k : Kind} (h : Handle k) (next : Reply k → Code π σ ρ)
  /-- A scenario belongs to one thread, and no other has anything to do with it. -/
  | stuck

variable {π : Kind → Type} {σ ρ : Type}

def Action.code {α : Type} : Action π σ α → (Except String α → Code π σ ρ) → Code π σ ρ
  | .quiet q, next => .quiet q fun a => next (.ok a)
  | .get h, next => .get h next
  | .verify _, _ => .stuck

def Proc.code {α : Type} : Proc π σ α → (Except String α → Code π σ ρ) → Code π σ ρ
  | .pure a, next => next (.ok a)
  | .bind x f, next => x.code fun
    | .ok a => (f a).code next
    | .error message => next (.error message)
  | .act a, next => a.code next
  | .panic message, next => next (.error message)
  | .attempt x, next => x.code fun r => next (.ok r)

structure Crew (π : Kind → Type) (σ : Type) where
  produce : (k : Kind) → π k → Proc π σ (Except EvalError k.Val)
  hear : Event → σ → σ

def Producer.code (crew : Crew π σ) {k : Kind} :
    Producer π k → Code π σ (Except EvalError k.Val)
  | .constant v => .done (.ok (.ok v))
  | .division a b => .done (.ok (checkedDiv a b))
  | .custom code => (crew.produce k code).code .done

end LazyFields
