import LazyFields.Threads.Thread

/-!
Threads over one world. At any moment any thread that has a step may take it; a schedule
says whose turn it is, and the reachable states are those that some schedule leads to.
-/

namespace LazyFields

structure Machine (π : Kind → Type) (σ ρ : Type) where
  threads : List (Thread π σ ρ)
  world : World π σ

namespace Machine

variable {π : Kind → Type} {σ ρ : Type}

def start (w : World π σ) (programs : List (Proc π σ ρ)) : Machine π σ ρ :=
  ⟨programs.map Thread.start, w⟩

def step (crew : Crew π σ) (t : Nat) (m : Machine π σ ρ) : Option (Machine π σ ρ) := do
  let thread ← m.threads[t]?
  let (thread', w) ← thread.step crew m.world
  return ⟨m.threads.set t thread', w⟩

def run (crew : Crew π σ) : List Nat → Machine π σ ρ → Option (Machine π σ ρ)
  | [], m => some m
  | t :: schedule, m => do run crew schedule (← m.step crew t)

inductive Reaches (crew : Crew π σ) (m : Machine π σ ρ) : Machine π σ ρ → Prop
  | refl : Reaches crew m m
  | step {m' m'' : Machine π σ ρ} (t : Nat) :
      Reaches crew m m' → m'.step crew t = some m'' → Reaches crew m m''

def results? (m : Machine π σ ρ) : Option (List (Except String ρ)) :=
  m.threads.mapM Thread.result?

def finished (m : Machine π σ ρ) : Bool := m.threads.all fun t => t.result?.isSome

theorem reaches_of_run {crew : Crew π σ} {schedule : List Nat} {m m' : Machine π σ ρ}
    (h : m.run crew schedule = some m') : m.Reaches crew m' := by
  have go : ∀ (schedule : List Nat) (a : Machine π σ ρ), m.Reaches crew a →
      a.run crew schedule = some m' → m.Reaches crew m' := by
    intro schedule
    induction schedule with
    | nil =>
      intro a ha h
      cases h
      exact ha
    | cons t rest ih =>
      intro a ha h
      obtain ⟨b, hb, hr⟩ := Option.bind_eq_some_iff.mp h
      exact ih b (.step t ha hb) hr
  exact go schedule m .refl h

end Machine

end LazyFields
