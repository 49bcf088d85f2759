import LazyFields.World

/-!
Computations on a world. One ends with a value, with a panic that looks for somebody to
catch it, or by halting, which nobody can catch. The world that a panic leaves behind is
the world at the panic, as changed by what it unwound through.
-/

namespace LazyFields

inductive Halt
  | tooDeep
  /-- A thread waits for a guard that it holds itself. -/
  | deadlock
  | dangling
  deriving DecidableEq

inductive Ending (α : Type)
  | value (a : α)
  | panicked (message : String)
  | halted (reason : Halt)

def Exec (π : Kind → Type) (σ α : Type) : Type := World π σ → Ending α × World π σ

namespace Exec

variable {π : Kind → Type} {σ α β : Type}

protected def pure (a : α) : Exec π σ α := fun w => (.value a, w)

protected def bind (x : Exec π σ α) (f : α → Exec π σ β) : Exec π σ β := fun w =>
  match x w with
  | (.value a, w') => f a w'
  | (.panicked message, w') => (.panicked message, w')
  | (.halted reason, w') => (.halted reason, w')

instance : Monad (Exec π σ) where
  pure := Exec.pure
  bind := Exec.bind

def halt (reason : Halt) : Exec π σ α := fun w => (.halted reason, w)

def panic (message : String) : Exec π σ α := fun w =>
  (.panicked message, w.note (.panicked message))

def attempt (x : Exec π σ α) : Exec π σ (Except String α) := fun w =>
  match x w with
  | (.value a, w') => (.value (.ok a), w')
  | (.panicked message, w') => (.value (.error message), w'.note (.caught message))
  | (.halted reason, w') => (.halted reason, w')

def view (f : World π σ → α) : Exec π σ α := fun w => (.value (f w), w)

def change (f : World π σ → α × World π σ) : Exec π σ α := fun w => (.value (f w).1, (f w).2)

def update (f : World π σ → World π σ) : Exec π σ Unit := fun w => (.value (), f w)

/-- Runs `x` and tidies the world after it, in one way after a value and in another while a
panic passes through. -/
def closing (x : Exec π σ α) (returned : α → World π σ → World π σ)
    (unwound : String → World π σ → World π σ) : Exec π σ α := fun w =>
  match x w with
  | (.value a, w') => (.value a, returned a w')
  | (.panicked message, w') => (.panicked message, unwound message w')
  | (.halted reason, w') => (.halted reason, w')

def note (m : Mark) : Exec π σ Unit := update (·.note m)

def recorded {ε : Type} (x : Exec π σ (Except ε α)) (mark : Finish ε α → Mark) :
    Exec π σ (Except ε α) :=
  x.closing (fun r w => w.note (mark (.of r))) (fun message w => w.note (mark (.panic message)))

theorem bind_def (x : Exec π σ α) (f : α → Exec π σ β) (w : World π σ) :
    (x >>= f) w = match x w with
      | (.value a, w') => f a w'
      | (.panicked message, w') => (.panicked message, w')
      | (.halted reason, w') => (.halted reason, w') := rfl

@[simp] theorem pure_def (a : α) (w : World π σ) : (pure a : Exec π σ α) w = (.value a, w) := rfl

instance : LawfulMonad (Exec π σ) := LawfulMonad.mk' _
  (fun x => by
    funext w
    show Exec.bind x (fun a => Exec.pure a) w = x w
    rcases h : x w with ⟨_ | _ | _, _⟩ <;> simp [Exec.bind, Exec.pure, h])
  (fun _ _ => rfl)
  (fun x f g => by
    funext w
    show Exec.bind (Exec.bind x f) g w = Exec.bind x (fun a => Exec.bind (f a) g) w
    rcases h : x w with ⟨_ | _ | _, _⟩ <;> simp [Exec.bind, h])

theorem bind_of_value {x : Exec π σ α} {f : α → Exec π σ β} {w w' : World π σ} {a : α}
    (h : x w = (.value a, w')) : (x >>= f) w = f a w' := by
  simp [bind_def, h]

theorem bind_eq_value_iff {x : Exec π σ α} {f : α → Exec π σ β} {w w' : World π σ} {b : β} :
    (x >>= f) w = (.value b, w') ↔
      ∃ a v, x w = (.value a, v) ∧ f a v = (.value b, w') := by
  rw [bind_def]
  rcases x w with ⟨a | _ | _, v⟩
  · constructor
    · exact fun h => ⟨a, v, rfl, h⟩
    · rintro ⟨_, _, ⟨⟩, h⟩
      exact h
  · simp
  · simp

theorem bind_of_panicked {x : Exec π σ α} {f : α → Exec π σ β} {w w' : World π σ} {m : String}
    (h : x w = (.panicked m, w')) : (x >>= f) w = (.panicked m, w') := by
  simp [bind_def, h]

end Exec

end LazyFields
